import ClassWeaver.Bytes

namespace ClassWeaver

inductive Json where
  | null
  | bool (value : Bool)
  | int (value : Int)
  | string (text : String)
  | list (items : List Json)
  | record (members : List (String × Json))
  deriving Repr

namespace Json

def nat (n : Nat) : Json := .int n

def strings (texts : List String) : Json := .list (texts.map .string)

def ofOption {α : Type} (f : α → Json) : Option α → Json
  | none => .null
  | some a => f a

def escape (c : Char) : List Char :=
  match c with
  | '"' => ['\\', '"']
  | '\\' => ['\\', '\\']
  | '\n' => ['\\', 'n']
  | '\r' => ['\\', 'r']
  | '\t' => ['\\', 't']
  | c =>
    if c.toNat = 8 then ['\\', 'b']
    else if c.toNat = 12 then ['\\', 'f']
    else if c.toNat < 32 then '\\' :: 'u' :: hexDigits 4 c.toNat
    else [c]

def quote (text : String) : List Char :=
  '"' :: (text.toList.flatMap escape ++ ['"'])

def atom : Bool → List Char
  | true => ['t', 'r', 'u', 'e']
  | false => ['f', 'a', 'l', 's', 'e']

mutual

def chars : Json → List Char
  | .null => ['n', 'u', 'l', 'l']
  | .bool b => atom b
  | .int n => (toString n).toList
  | .string s => quote s
  | .list items => '[' :: itemChars items
  | .record members => '{' :: memberChars members

def itemChars : List Json → List Char
  | [] => [']']
  | [x] => x.chars ++ [']']
  | x :: xs => x.chars ++ ',' :: itemChars xs

def memberChars : List (String × Json) → List Char
  | [] => ['}']
  | [(name, x)] => quote name ++ ':' :: (x.chars ++ ['}'])
  | (name, x) :: xs => quote name ++ ':' :: (x.chars ++ ',' :: memberChars xs)

end

def compact (j : Json) : String := String.ofList j.chars

def newline (depth : Nat) : List Char := '\n' :: List.replicate (2 * depth) ' '

mutual

def prettyChars (depth : Nat) : Json → List Char
  | .list (x :: xs) => '[' :: prettyItems (depth + 1) (x :: xs)
  | .record (m :: ms) => '{' :: prettyMembers (depth + 1) (m :: ms)
  | j => j.chars

def prettyItems (depth : Nat) : List Json → List Char
  | [] => newline (depth - 1) ++ [']']
  | [x] => newline depth ++ (x.prettyChars depth ++ prettyItems depth [])
  | x :: xs => newline depth ++ (x.prettyChars depth ++ ',' :: prettyItems depth xs)

def prettyMembers (depth : Nat) : List (String × Json) → List Char
  | [] => newline (depth - 1) ++ ['}']
  | [(name, x)] =>
    newline depth ++ (quote name ++ ':' :: ' ' :: (x.prettyChars depth ++ prettyMembers depth []))
  | (name, x) :: xs =>
    newline depth ++
      (quote name ++ ':' :: ' ' :: (x.prettyChars depth ++ ',' :: prettyMembers depth xs))

end

def pretty (j : Json) : String := String.ofList (j.prettyChars 0)

end Json

end ClassWeaver
