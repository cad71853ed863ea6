import BitLayout.Report

/-!
# The example program

Shows the status register on standard output.
-/

/-- Prints the report of the status register. -/
def main : IO Unit :=
  IO.print (String.ofList (BitLayout.StatusRegister.report?.getD []))
