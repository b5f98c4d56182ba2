import ClassWeaver.Text.Utf8

/-!
The names of entries. A name is in UTF-8 where its entry says so, and otherwise in the code page that
archives had at first.
-/

namespace ClassWeaver

namespace Zip

def upperHalf : List Char :=
  ("ÇüéâäàåçêëèïîìÄÅÉæÆôöòûùÿÖÜ¢£¥₧ƒ" ++
   "áíóúñÑªº¿⌐¬½¼¡«»░▒▓│┤╡╢╖╕╣║╗╝╜╛┐" ++
   "└┴┬├─┼╞╟╚╔╩╦╠═╬╧╨╤╥╙╘╒╓╫╪┘┌█▄▌▐▀" ++
   "αßΓπΣσµτΦΘΩδ∞φε∩≡±≥≤⌠⌡÷≈°∙·√ⁿ²■ ").toList

def ofCodePage (b : UInt8) : Char :=
  if b < 128 then Char.ofNat b.toNat else upperHalf.getD (b.toNat - 128) ' '

def nameText (unicode : Bool) (bs : Bytes) : String :=
  if unicode then Utf8.decodeAny bs else String.ofList (bs.map ofCodePage)

def needsUnicode (name : String) : Bool := name.toList.any fun c => 128 ≤ c.toNat

end Zip

end ClassWeaver
