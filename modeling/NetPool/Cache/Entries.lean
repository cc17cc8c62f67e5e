import NetPool.Address.Range

/-! The ranges a node believes it owns in a pool, as a text: one range a line. -/

namespace NetPool.Cache

open Text

/-- The ranges in a text, in order. Lines that hold no range are passed over. -/
def entries (content : String) : List AddressRange :=
  (lines content.toList).filterMap fun line =>
    (AddressRange.parse (String.ofList (trim line))).toOption

def render (ranges : List AddressRange) : String :=
  String.ofList (ranges.flatMap fun r => r.chars ++ ['\n'])

def overlapping? (r : AddressRange) (ranges : List AddressRange) : Option AddressRange :=
  ranges.find? (·.overlaps r)

/-- The ranges without the first one that overlaps `r`. -/
def without (r : AddressRange) (ranges : List AddressRange) : List AddressRange :=
  ranges.eraseP (·.overlaps r)

end NetPool.Cache
