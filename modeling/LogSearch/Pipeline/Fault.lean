/-!
# Why a stage fails

* `StageFault`: the causes.
* `StageFault.message`: their wording.
-/

namespace LogSearch

/-- Why a stage cannot process its rows. -/
inductive StageFault
  /-- A numeric aggregation met a value that is no number. -/
  | nonNumeric (stage column value : String)
  /-- The pattern cannot be read. -/
  | invalidPattern (stage reason : String)
  /-- The span divides the range into too many buckets. -/
  | tooManyBuckets (stage : String) (span : Int) (buckets most : Nat)
  /-- The buckets cannot be counted or held, which stops the program. -/
  | brokenOff (stage : String)

/-- The wording of a fault. -/
def StageFault.message : StageFault → String
  | nonNumeric stage column value =>
    stage ++ ": column '" ++ column ++ "' holds non-numeric value '" ++ value ++ "'"
  | invalidPattern stage reason => stage ++ ": invalid regex: " ++ reason
  | tooManyBuckets stage span buckets most =>
    stage ++ ": span of " ++ toString span ++ "ms yields " ++ toString buckets
      ++ " buckets over this range (at most " ++ toString most ++ ")"
  | brokenOff stage => stage ++ ": the number of buckets overflows"

/-- Whether the program stops where others would see the fault. -/
def StageFault.stops : StageFault → Bool
  | brokenOff _ => true
  | nonNumeric .. | invalidPattern .. | tooManyBuckets .. => false

end LogSearch
