/-!
JSON texts as far as they can be read. A text with a fault in it still says what stands before the
fault, so whoever looks for a certain shape meets the first thing wrong, be it in the text or in its
shape.
-/

namespace ClassWeaver

inductive JsonFault where
  | malformed
  | ended
  | shape
  deriving DecidableEq, Repr

mutual

inductive Draft where
  | null
  | bool (value : Bool)
  | int (value : Int)
  | number
  | string (text : String)
  | list (items : List Draft) (stop : Stop)
  | record (members : List (String × Draft)) (stop : Stop)
  | broken (fault : JsonFault)
  | brokenAtom (fault : JsonFault)
  deriving Repr

inductive Stop where
  | closed
  | cut (fault : JsonFault) (afterComma : Bool)
  | badName (found : Draft) (afterComma : Bool)
  deriving Repr

end

namespace Stop

def fault? : Stop → Option JsonFault
  | closed => none
  | cut fault _ => some fault
  | badName .. => some .malformed

def faultAtOnce? : Stop → Option JsonFault
  | cut _ true | badName _ true => some .malformed
  | stop => stop.fault?

end Stop

namespace Draft

mutual

def fault? : Draft → Option JsonFault
  | broken fault | brokenAtom fault => some fault
  | list items stop => (faultIn? items).or stop.fault?
  | record members stop => (faultInMembers? members).or stop.fault?
  | _ => none

def faultIn? : List Draft → Option JsonFault
  | [] => none
  | d :: rest => d.fault?.or (faultIn? rest)

def faultInMembers? : List (String × Draft) → Option JsonFault
  | [] => none
  | (_, d) :: rest => d.fault?.or (faultInMembers? rest)

end

def endingFault? : Draft → Option JsonFault
  | broken fault | brokenAtom fault => some fault
  | list _ stop | record _ stop => stop.fault?
  | _ => none

/-- The fault of something that has not the shape asked for; what begins well enough as a list or a
record is not looked into. -/
def misshapen {α : Type} : Draft → Except JsonFault α
  | broken fault | brokenAtom fault => .error fault
  | _ => .error .shape

end Draft

end ClassWeaver
