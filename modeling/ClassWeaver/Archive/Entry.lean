import ClassWeaver.Bytes

namespace ClassWeaver

/-- When an entry was last changed, to two seconds: seven bits of year, four of month and five of day,
then five of hour, six of minute and five of half the second. -/
structure EntryTime where
  date : UInt16
  time : UInt16
  deriving DecidableEq, Repr

namespace EntryTime

def epoch : Nat := 1980

def make (year month day hour minute second : Nat) : EntryTime where
  date := UInt16.ofNat ((year - epoch) * 512 + month * 32 + day)
  time := UInt16.ofNat (hour * 2048 + minute * 32 + second / 2)

def year (t : EntryTime) : Nat := epoch + t.date.toNat / 512

def month (t : EntryTime) : Nat := t.date.toNat / 32 % 16

def day (t : EntryTime) : Nat := t.date.toNat % 32

def hour (t : EntryTime) : Nat := t.time.toNat / 2048

def minute (t : EntryTime) : Nat := t.time.toNat / 32 % 64

def second (t : EntryTime) : Nat := t.time.toNat % 32 * 2

end EntryTime

structure Entry where
  name : String
  data : Bytes
  stored : Bool
  modified : EntryTime
  mode : Option Nat
  deriving DecidableEq, Repr

namespace Entry

def namesDirectory (name : String) : Bool :=
  match name.toList.getLast? with
  | some c => c == '/' || c == '\\'
  | none => false

def isDirectory (e : Entry) : Bool := namesDirectory e.name

def directoryMode : Nat := 0o755

def fileMode : Nat := 0o644

/-- An entry as it is written: a directory has no contents, and of the mode the permissions
remain. -/
def written (e : Entry) (replacement : Option Bytes) : Entry :=
  if e.isDirectory then
    { e with data := [], stored := true, mode := some ((e.mode.getD directoryMode) % 512) }
  else
    { e with
      data := replacement.getD e.data
      mode := some ((e.mode.getD fileMode) % 512) }

end Entry

end ClassWeaver
