import ClassWeaver.Pool.Basic

/-!
Growing a constant pool. An entry that is already there is shared; a growth that fails keeps what it
appended before.
-/

namespace ClassWeaver

abbrev Growth := OptionT (StateM Pool)

namespace Pool

def maxSlots : Nat := 65535

def addConstant (c : Constant) (p : Pool) : Option UInt16 × Pool :=
  match p.slots.idxOf? c with
  | some i => (some (UInt16.ofNat i), p)
  | none =>
    if maxSlots < p.count + c.width then (none, p)
    else
      let slots := p.slots.push c
      (some (UInt16.ofNat p.count), { p with
        slots := if c.isWide then slots.push .unusable else slots })

def add (c : Constant) : Growth UInt16 := fun p => p.addConstant c

def addUtf8 (text : String) : Growth UInt16 := add (.utf8 text)

def addClass (name : String) : Growth UInt16 := do
  add (.classRef (← addUtf8 name))

def addString (text : String) : Growth UInt16 := do
  add (.string (← addUtf8 text))

def addMethodRef (owner name descriptor : String) : Growth UInt16 := do
  let owner ← addClass owner
  let name ← addUtf8 name
  let descriptor ← addUtf8 descriptor
  let member ← add (.nameAndType name descriptor)
  add (.methodRef owner member)

end Pool

end ClassWeaver
