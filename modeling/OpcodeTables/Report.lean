/-!
# Reports

The words that complaints about an instruction-set description share.
-/

namespace OpcodeTables.Report

def malformed (problem : String) : String :=
  "Malformed instruction-set description: " ++ problem

end OpcodeTables.Report
