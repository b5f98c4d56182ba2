import Mathlib.Data.Nat.Log
import ClassWeaver.Proofs.Basic
import ClassWeaver.Text.Json.Decoder
import ClassWeaver.Text.Json.Printer

namespace ClassWeaver

namespace Magnitude

lemma nearest_le (n : Nat) : nearest n ≤ 2 * n + 1 := by
  have hunit : Nat.pow 2 (n.log2 - 52) ≤ n + 1 := by
    by_cases hn : n = 0
    · subst hn
      decide
    · calc 2 ^ (n.log2 - 52) ≤ 2 ^ n.log2 := Nat.pow_le_pow_right (by decide) (Nat.sub_le _ _)
        _ ≤ n := Nat.log2_self_le hn
        _ ≤ n + 1 := Nat.le_succ n
  unfold nearest
  generalize Nat.pow 2 (n.log2 - 52) = unit at hunit ⊢
  have hfront := Nat.div_mul_le_self n unit
  dsimp only
  split
  · rw [Nat.add_mul]
    omega
  · omega

lemma isFinite_of_lt {n : Nat} (hn : n < 0x10000000000000000) : isFinite n 0 = true := by
  have hlarge : 0x20000000000000000 < tooLarge := by decide +kernel
  have hone : nearest (Nat.pow 10 (0 : Int).toNat) = 1 := by decide
  have hnear := nearest_le n
  rw [isFinite, hone, Nat.mul_one, decide_eq_true (show (0 : Int) ≤ maxPower by decide),
    decide_eq_true (show nearest n < tooLarge by omega)]
  simp

lemma gather_eq {ds : List Char} {n : Nat} (h : Nat.ofDigitChars 10 ds n ≤ maxSignificand) :
    gather n ds = (Nat.ofDigitChars 10 ds n, []) := by
  have hgrow : ∀ (ds : List Char) (n : Nat), n ≤ Nat.ofDigitChars 10 ds n := by
    intro ds
    induction ds with
    | nil => exact fun n => Nat.le_refl n
    | cons d ds ih =>
      intro n
      exact Nat.le_trans (by omega) (ih (10 * n + (d.toNat - '0'.toNat)))
  induction ds generalizing n with
  | nil => rfl
  | cons d ds ih =>
    have hstep : n * 10 + (d.toNat - 48) = 10 * n + (d.toNat - '0'.toNat) := by
      rw [Nat.mul_comm]
      rfl
    rw [gather, hstep, if_pos ((hgrow ds _).trans h)]
    exact ih h

end Magnitude

namespace Json

mutual

def draft : Json → Draft
  | .null => .null
  | .bool b => .bool b
  | .int n => .int n
  | .string text => .string text
  | .list items => .list (draftItems items) .closed
  | .record members => .record (draftMembers members) .closed

def draftItems : List Json → List Draft
  | [] => []
  | x :: xs => x.draft :: draftItems xs

def draftMembers : List (String × Json) → List (String × Draft)
  | [] => []
  | (name, x) :: xs => (name, x.draft) :: draftMembers xs

end

mutual

def Fits : Nat → Json → Prop
  | _, .int n => 0 ≤ n ∧ n < 0x10000000000000000
  | depth + 1, .list items => FitsItems depth items
  | depth + 1, .record members => FitsMembers depth members
  | 0, .list _ | 0, .record _ => False
  | _, _ => True

def FitsItems : Nat → List Json → Prop
  | _, [] => True
  | depth, x :: xs => Fits depth x ∧ FitsItems depth xs

def FitsMembers : Nat → List (String × Json) → Prop
  | _, [] => True
  | depth, (_, x) :: xs => Fits depth x ∧ FitsMembers depth xs

end

lemma itemChars_cons_cons (x y : Json) (ys : List Json) :
    itemChars (x :: y :: ys) = x.chars ++ ',' :: itemChars (y :: ys) := by
  rw [itemChars]
  simp

lemma memberChars_cons_cons (name : String) (x : Json) (m : String × Json)
    (ms : List (String × Json)) : memberChars ((name, x) :: m :: ms) =
      quote name ++ ':' :: (x.chars ++ ',' :: memberChars (m :: ms)) := by
  rw [memberChars]
  simp

end Json

namespace Draft

def Delimited (rest : List Char) : Prop :=
  ∀ c, rest.head? = some c → c = ',' ∨ c = ']' ∨ c = '\x7d'

section Strings

lemma hexUnit_append {ds : List Char} (h : ds.length = 4) (rest : List Char) :
    hexUnit (ds ++ rest) = hexUnit ds := by
  unfold hexUnit
  rw [List.take_append_of_le_length h.ge, List.take_of_length_le h.le]

lemma escapedUnit_hexDigits {n : Nat} (hn : n < 32) (rest : List Char) :
    escapedUnit (hexDigits 4 n ++ rest) = .ok (Char.ofNat n, rest) := by
  have hunit : ∀ n < 32, hexUnit (hexDigits 4 n) = .ok n := by decide
  have hlen : (hexDigits 4 n).length = 4 := rfl
  have hlow : ¬ (0xDC00 ≤ n ∧ n < 0xE000) := by omega
  have hhigh : ¬ (0xD800 ≤ n ∧ n < 0xDC00) := by omega
  unfold escapedUnit
  rw [hexUnit_append hlen, hunit n hn]
  dsimp only
  rw [if_neg hlow, if_neg hhigh, List.drop_left' hlen]

lemma quoted_escape (c : Char) (turns : Nat) (rest done : List Char) :
    quoted (turns + 1) (Json.escape c ++ rest) done = quoted turns rest (c :: done) := by
  have hspecial : ∀ (d e : Char) (cs : List Char), escape (e :: cs) = .ok (d, cs) →
      quoted (turns + 1) ('\\' :: e :: cs) done = quoted turns cs (d :: done) := by
    intro d e cs h
    rw [quoted, if_neg (by decide), if_pos rfl, h]
  unfold Json.escape
  split
  · exact hspecial _ _ _ rfl
  · exact hspecial _ _ _ rfl
  · exact hspecial _ _ _ rfl
  · exact hspecial _ _ _ rfl
  · exact hspecial _ _ _ rfl
  · next hquote hback hline hreturn htab =>
    split
    · next h =>
      rw [← Char.ofNat_toNat c, h]
      exact hspecial _ _ _ rfl
    split
    · next h =>
      rw [← Char.ofNat_toNat c, h]
      exact hspecial _ _ _ rfl
    split
    · next h =>
      have hunit : escape ('u' :: (hexDigits 4 c.toNat ++ rest)) = .ok (c, rest) := by
        rw [escape, escapedUnit_hexDigits h, Char.ofNat_toNat]
      rw [List.cons_append, List.cons_append, quoted, if_neg (by decide), if_pos rfl, hunit]
    · next h =>
      rw [List.singleton_append, quoted, if_neg hquote, if_neg hback, if_neg h]

lemma quoted_flatMap (cs : List Char) {turns : Nat} (rest done : List Char)
    (hturns : (cs.flatMap Json.escape).length < turns) :
    quoted turns (cs.flatMap Json.escape ++ '"' :: rest) done =
      .ok (String.ofList (done.reverse ++ cs), rest) := by
  induction cs generalizing turns done with
  | nil =>
    obtain ⟨turns, rfl⟩ : ∃ m, turns = m + 1 := ⟨turns - 1, by omega⟩
    simp [quoted]
  | cons c cs ih =>
    have hescape : 0 < (Json.escape c).length := by
      unfold Json.escape
      split
      all_goals try decide
      split
      · decide
      split
      · decide
      split
      · simp
      · simp
    rw [List.flatMap_cons, List.length_append] at hturns
    obtain ⟨turns, rfl⟩ : ∃ m, turns = m + 1 := ⟨turns - 1, by omega⟩
    rw [List.flatMap_cons, List.append_assoc, quoted_escape, ih _ (by omega)]
    simp

lemma quoted_quote (text : String) (turns : Nat) (rest : List Char)
    (hturns : (Json.quote text).length ≤ turns) :
    ∃ cs, Json.quote text ++ rest = '"' :: cs ∧ quoted turns cs [] = .ok (text, rest) := by
  refine ⟨text.toList.flatMap Json.escape ++ '"' :: rest, by simp [Json.quote], ?_⟩
  rw [Json.quote] at hturns
  simp only [List.length_cons, List.length_append, List.length_nil] at hturns
  rw [quoted_flatMap _ _ _ (by omega)]
  simp

end Strings

section Numbers

lemma head_toDigits {n : Nat} (hn : n ≠ 0) : (Nat.toDigits 10 n).head? ≠ some '0' := by
  induction n using Nat.strongRecOn with
  | ind n ih =>
    by_cases h : n < 10
    · rw [Nat.toDigits_of_lt_base h]
      have hdigit : ∀ d < 10, d ≠ 0 → [Nat.digitChar d].head? ≠ some '0' := by decide
      exact hdigit n h hn
    · have hle : 10 ≤ n := Nat.le_of_not_lt h
      rw [Nat.toDigits_of_base_le (by decide) hle,
        List.head?_append_of_ne_nil _ Nat.toDigits_ne_nil]
      exact ih (n / 10) (by omega) (by omega)

lemma length_toDigits {n : Nat} (hn : n < 10) : (Nat.toDigits 10 n).length = 1 := by
  rw [Nat.toDigits_of_lt_base hn]
  rfl

variable {n : Nat} {rest : List Char}

lemma digits_toDigits (hrest : Delimited rest) :
    digits (Nat.toDigits 10 n ++ rest) = .ok (Nat.toDigits 10 n, rest) := by
  have hall : ∀ c ∈ Nat.toDigits 10 n, c.isDigit = true :=
    fun c hc => Nat.isDigit_of_mem_toDigits (by decide) (by decide) hc
  have hnone : rest.takeWhile Char.isDigit = [] ∧ rest.dropWhile Char.isDigit = rest := by
    cases rest with
    | nil => exact ⟨rfl, rfl⟩
    | cons c cs =>
      have hc : c.isDigit = false := by
        rcases hrest c rfl with rfl | rfl | rfl <;> decide
      rw [List.takeWhile_cons, List.dropWhile_cons, hc]
      exact ⟨rfl, rfl⟩
  unfold digits
  rw [List.takeWhile_append_of_pos hall, List.dropWhile_append_of_pos hall, hnone.1, hnone.2,
    List.append_nil]
  obtain ⟨d, ds, hds⟩ := List.exists_cons_of_ne_nil (Nat.toDigits_ne_nil (n := n) (b := 10))
  rw [hds]

lemma wholePart_toDigits (hrest : Delimited rest) :
    wholePart (Nat.toDigits 10 n ++ rest) = .ok (Nat.toDigits 10 n, rest) := by
  unfold wholePart
  rw [digits_toDigits hrest]
  split
  · next c cs rest' h =>
    exfalso
    have hdigits : Nat.toDigits 10 n = '0' :: c :: cs := congrArg Prod.fst (Except.ok.inj h)
    by_cases hn : n < 10
    · have := length_toDigits hn
      rw [hdigits] at this
      simp at this
    · exact head_toDigits (by omega : n ≠ 0) (by rw [hdigits]; rfl)
  · rfl

lemma unsignedNumber_toDigits (hn : n < 0x10000000000000000) (hrest : Delimited rest) :
    unsignedNumber false (Nat.toDigits 10 n ++ rest) = .ok (.int n, rest) := by
  have hfraction : fraction rest = .ok (none, rest) := by
    unfold fraction
    split
    · next cs => rcases hrest '.' rfl with h | h | h <;> exact absurd h (by decide)
    · rfl
  have hexponent : exponent rest = .ok (none, rest) := by
    unfold exponent
    split
    · next c cs =>
      have hc : (decide (c = 'e') || decide (c = 'E')) = false := by
        rcases hrest c rfl with rfl | rfl | rfl <;> decide
      rw [hc]
      rfl
    · rfl
  have hvalue : Nat.ofDigitChars 10 (Nat.toDigits 10 n) 0 = n :=
    Nat.ofDigitChars_toDigits (by decide) (by decide)
  have hgather : Magnitude.gather 0 (Nat.toDigits 10 n) = (n, []) := by
    rw [Magnitude.gather_eq (by rw [hvalue, Magnitude.maxSignificand]; omega), hvalue]
  unfold unsignedNumber
  rw [wholePart_toDigits hrest]
  simp only [bind, Except.bind, hfraction, hexponent, hgather, Option.getD_none, Magnitude.gather,
    List.length_nil]
  rw [if_pos (by simpa using Magnitude.isFinite_of_lt hn)]
  simp [integer, hn, pure, Except.pure]

end Numbers

section Values

variable {rest : List Char}

lemma skipBlanks_cons {c : Char} (h : isJsonBlank c = false) (cs : List Char) :
    skipBlanks (c :: cs) = c :: cs := by
  rw [skipBlanks, List.dropWhile_cons, h]
  rfl

lemma exists_int_cons {n : Int} (h : 0 ≤ n) : ∃ c cs, (Json.int n).chars = c :: cs ∧
    c.isDigit = true := by
  obtain ⟨n, rfl⟩ := Int.eq_ofNat_of_zero_le h
  obtain ⟨c, cs, hc⟩ := List.exists_cons_of_ne_nil (Nat.toDigits_ne_nil (n := n) (b := 10))
  refine ⟨c, cs, ?_, Nat.isDigit_of_mem_toDigits (n := n) (b := 10) (by decide) (by decide)
    (hc ▸ List.mem_cons_self)⟩
  rw [← hc, Json.chars]
  exact Nat.toList_repr

lemma exists_chars_cons {depth : Nat} {j : Json} (h : j.Fits depth) : ∃ c cs, j.chars = c :: cs ∧
    isJsonBlank c = false ∧ c ≠ ']' := by
  cases j with
  | null => exact ⟨_, _, rfl, by decide, by decide⟩
  | bool b => cases b <;> exact ⟨_, _, rfl, by decide, by decide⟩
  | int n =>
    obtain ⟨c, cs, hc, hdigit⟩ := exists_int_cons (show 0 ≤ n by simpa [Json.Fits] using And.left h)
    refine ⟨c, cs, hc, ?_, fun hend => absurd (hend ▸ hdigit) (by decide)⟩
    by_contra hblank
    simp only [isJsonBlank, Bool.not_eq_false, Bool.or_eq_true, decide_eq_true_eq] at hblank
    rcases hblank with ((rfl | rfl) | rfl) | rfl <;> exact absurd hdigit (by decide)
  | string text => exact ⟨_, _, rfl, by decide, by decide⟩
  | list items => exact ⟨_, _, by rw [Json.chars], by decide, by decide⟩
  | record members => exact ⟨_, _, by rw [Json.chars], by decide, by decide⟩

lemma endingFault?_draft (j : Json) : j.draft.endingFault? = none := by
  cases j <;> rfl

lemma delimited_cons {c : Char} (h : c = ',' ∨ c = ']' ∨ c = '\x7d') (cs : List Char) :
    Delimited (c :: cs) := by
  intro d hd
  rw [← Option.some.inj hd]
  exact h

lemma atom_chars {depth turns : Nat} {j : Json} {c : Char} {cs : List Char} (h : j.Fits depth)
    (hc : j.chars = c :: cs) (hturns : cs.length < turns) (hrest : Delimited rest)
    (hlist : c ≠ '[') (hrecord : c ≠ '\x7b') :
    atom turns c (cs ++ rest) = (j.draft, rest) := by
  cases j with
  | null =>
    cases hc
    rfl
  | bool b => cases b <;> cases hc <;> rfl
  | int n =>
    obtain ⟨n, rfl⟩ := Int.eq_ofNat_of_zero_le (show 0 ≤ n by simpa [Json.Fits] using And.left h)
    have hn : n < 0x10000000000000000 := by
      have := And.right h
      omega
    have hchars : c :: cs = Nat.toDigits 10 n := by
      rw [← hc, Json.chars]
      exact Nat.toList_repr
    have hdigit : c.isDigit = true :=
      Nat.isDigit_of_mem_toDigits (n := n) (b := 10) (by decide) (by decide)
        (hchars ▸ List.mem_cons_self)
    have hne : ∀ d : Char, d.isDigit = false → c ≠ d := by
      rintro d hd rfl
      rw [hd] at hdigit
      cases hdigit
    rw [atom, if_neg (hne 'n' (by decide)), if_neg (hne 't' (by decide)),
      if_neg (hne 'f' (by decide)), if_neg (hne '"' (by decide)), if_neg (hne '-' (by decide)),
      if_pos hdigit, ← List.cons_append, hchars, unsignedNumber_toDigits hn hrest]
    rfl
  | string text =>
    rw [Json.chars] at hc
    obtain ⟨cs', hcs, hquoted⟩ := quoted_quote text turns rest (by
      rw [hc, List.length_cons]
      exact hturns)
    rw [hc, List.cons_append] at hcs
    cases hcs
    rw [atom, if_neg (by decide), if_neg (by decide), if_neg (by decide), if_pos rfl, hquoted]
    rfl
  | list items =>
    rw [Json.chars] at hc
    cases hc
    exact absurd rfl hlist
  | record members =>
    rw [Json.chars] at hc
    cases hc
    exact absurd rfl hrecord

lemma value_atom {depth turns : Nat} {j : Json} {c : Char} {cs : List Char} (h : j.Fits depth)
    (hc : j.chars = c :: cs) (hlist : c ≠ '[') (hrecord : c ≠ '\x7b')
    (hturns : 3 * j.chars.length ≤ turns) (hrest : Delimited rest) :
    value turns depth (j.chars ++ rest) = (j.draft, rest) := by
  obtain ⟨d, ds, hd, hblank, -⟩ := exists_chars_cons h
  obtain ⟨rfl, rfl⟩ := List.cons.inj (hc.symm.trans hd)
  rw [hc, List.length_cons] at hturns
  obtain ⟨turns, rfl⟩ : ∃ m, turns = m + 1 := ⟨turns - 1, by omega⟩
  rw [hc, List.cons_append, value, skipBlanks_cons hblank]
  dsimp only
  rw [if_neg hlist, if_neg hrecord, atom_chars h hc (by omega) hrest hlist hrecord]

lemma itemsOf_cons {depth turns : Nat} {c : Char} (hblank : isJsonBlank c = false) (hc : c ≠ ']')
    (cs : List Char) : itemsOf (turns + 1) depth (c :: cs) = moreItems turns depth (c :: cs) [] := by
  rw [itemsOf, skipBlanks_cons hblank]
  dsimp only
  rw [if_neg hc]

lemma moreItems_last {depth turns : Nat} {cs : List Char} {d : Draft} {done : List Draft}
    (h : value turns depth cs = (d, ']' :: rest)) (hd : d.endingFault? = none) :
    moreItems (turns + 1) depth cs done = (.list (done.reverse ++ [d]) .closed, rest) := by
  rw [moreItems, h]
  dsimp only
  rw [hd]
  dsimp only
  rw [skipBlanks_cons (by decide)]
  simp

lemma moreItems_comma {depth turns : Nat} {cs : List Char} {d : Draft} {done : List Draft}
    {c : Char} (h : value turns depth cs = (d, ',' :: c :: rest)) (hd : d.endingFault? = none)
    (hblank : isJsonBlank c = false) (hc : c ≠ ']') :
    moreItems (turns + 1) depth cs done = moreItems turns depth (c :: rest) (d :: done) := by
  rw [moreItems, h]
  dsimp only
  rw [hd]
  dsimp only
  rw [skipBlanks_cons (by decide)]
  dsimp only
  rw [if_neg (by decide), if_pos rfl, skipBlanks_cons hblank]
  dsimp only
  rw [if_neg hc]

lemma moreMembers_last {depth turns : Nat} {comma : Bool} {cs ds : List Char} {name : String}
    {d : Draft} {done : List (String × Draft)} (hname : quoted turns cs [] = .ok (name, ':' :: ds))
    (h : value turns depth ds = (d, '\x7d' :: rest)) (hd : d.endingFault? = none) :
    moreMembers (turns + 1) depth comma ('"' :: cs) done =
      (.record (done.reverse ++ [(name, d)]) .closed, rest) := by
  rw [moreMembers, if_pos rfl, hname]
  dsimp only
  rw [skipBlanks_cons (by decide)]
  dsimp only
  rw [if_pos rfl, h]
  dsimp only
  rw [hd]
  dsimp only
  rw [skipBlanks_cons (by decide)]
  simp

lemma moreMembers_comma {depth turns : Nat} {comma : Bool} {cs ds : List Char} {name : String}
    {d : Draft} {done : List (String × Draft)} (hname : quoted turns cs [] = .ok (name, ':' :: ds))
    (h : value turns depth ds = (d, ',' :: '"' :: rest)) (hd : d.endingFault? = none) :
    moreMembers (turns + 1) depth comma ('"' :: cs) done =
      moreMembers turns depth true ('"' :: rest) ((name, d) :: done) := by
  rw [moreMembers, if_pos rfl, hname]
  dsimp only
  rw [skipBlanks_cons (by decide)]
  dsimp only
  rw [if_pos rfl, h]
  dsimp only
  rw [hd]
  dsimp only
  rw [skipBlanks_cons (by decide)]
  dsimp only
  rw [if_neg (by decide), if_pos rfl, skipBlanks_cons (by decide)]
  dsimp only
  rw [if_neg (by decide)]

lemma exists_itemChars_cons {depth : Nat} {x : Json} {xs : List Json}
    (h : Json.FitsItems depth (x :: xs)) : ∃ c cs, Json.itemChars (x :: xs) = c :: cs ∧
      isJsonBlank c = false ∧ c ≠ ']' := by
  obtain ⟨c, cs, hc, hblank, hend⟩ := exists_chars_cons h.1
  cases xs with
  | nil => exact ⟨c, cs ++ [']'], by rw [Json.itemChars, hc, List.cons_append], hblank, hend⟩
  | cons y ys =>
    exact ⟨c, cs ++ ',' :: Json.itemChars (y :: ys),
      by rw [Json.itemChars_cons_cons, hc, List.cons_append], hblank, hend⟩

lemma exists_memberChars_cons (name : String) (x : Json) (xs : List (String × Json)) :
    ∃ cs, Json.memberChars ((name, x) :: xs) = '"' :: cs := by
  cases xs <;> exact ⟨_, rfl⟩

mutual

theorem value_chars (j : Json) (turns : Nat) (rest : List Char) {depth : Nat} (h : j.Fits depth)
    (hturns : 3 * j.chars.length ≤ turns) (hrest : Delimited rest) :
    value turns depth (j.chars ++ rest) = (j.draft, rest) := by
  match j, depth with
  | .null, _ => exact value_atom h rfl (by decide) (by decide) hturns hrest
  | .bool true, _ => exact value_atom h rfl (by decide) (by decide) hturns hrest
  | .bool false, _ => exact value_atom h rfl (by decide) (by decide) hturns hrest
  | .int n, _ =>
    obtain ⟨c, cs, hc, hdigit⟩ := exists_int_cons (show 0 ≤ n by simpa [Json.Fits] using And.left h)
    exact value_atom h hc (fun hlist => absurd (hlist ▸ hdigit) (by decide))
      (fun hrecord => absurd (hrecord ▸ hdigit) (by decide)) hturns hrest
  | .string text, _ => exact value_atom h rfl (by decide) (by decide) hturns hrest
  | .list [], depth + 1 =>
    rw [Json.chars, Json.itemChars] at hturns
    obtain ⟨turns, rfl⟩ : ∃ m, turns = m + 6 := ⟨turns - 6, (Nat.sub_add_cancel (by simpa using hturns)).symm⟩
    rw [Json.chars, Json.itemChars, List.cons_append, value, skipBlanks_cons (by decide)]
    dsimp only
    rw [if_pos rfl, List.singleton_append, itemsOf, skipBlanks_cons (by decide)]
    rfl
  | .list (x :: xs), depth + 1 =>
    rw [Json.chars, List.length_cons] at hturns
    obtain ⟨turns, rfl⟩ : ∃ m, turns = m + 2 := ⟨turns - 2, by omega⟩
    obtain ⟨c, cs, hc, hblank, hend⟩ := exists_itemChars_cons h
    rw [Json.chars, List.cons_append, value, skipBlanks_cons (by decide)]
    dsimp only
    rw [if_pos rfl, hc, List.cons_append, itemsOf_cons hblank hend, ← List.cons_append, ← hc,
      moreItems_itemChars (x :: xs) (by simp) h (by omega)]
    rfl
  | .record [], depth + 1 =>
    rw [Json.chars, Json.memberChars] at hturns
    obtain ⟨turns, rfl⟩ : ∃ m, turns = m + 6 := ⟨turns - 6, (Nat.sub_add_cancel (by simpa using hturns)).symm⟩
    rw [Json.chars, Json.memberChars, List.cons_append, value, skipBlanks_cons (by decide)]
    dsimp only
    rw [if_neg (by decide), if_pos rfl, List.singleton_append, membersOf,
      skipBlanks_cons (by decide)]
    rfl
  | .record ((name, x) :: xs), depth + 1 =>
    rw [Json.chars, List.length_cons] at hturns
    obtain ⟨turns, rfl⟩ : ∃ m, turns = m + 2 := ⟨turns - 2, by omega⟩
    obtain ⟨cs, hcs⟩ := exists_memberChars_cons name x xs
    rw [Json.chars, List.cons_append, value, skipBlanks_cons (by decide)]
    dsimp only
    rw [if_neg (by decide), if_pos rfl, hcs, List.cons_append, membersOf,
      skipBlanks_cons (by decide)]
    dsimp only
    rw [if_neg (by decide), ← List.cons_append, ← hcs,
      moreMembers_memberChars ((name, x) :: xs) (by simp) h (by omega)]
    rfl
  | .list _, 0 => exact absurd h (by simp [Json.Fits])
  | .record _, 0 => exact absurd h (by simp [Json.Fits])

theorem moreItems_itemChars (items : List Json) {depth turns : Nat} {rest : List Char}
    {done : List Draft} (hne : items ≠ []) (h : Json.FitsItems depth items)
    (hturns : 3 * (Json.itemChars items).length ≤ turns) :
    moreItems turns depth (Json.itemChars items ++ rest) done =
      (.list (done.reverse ++ Json.draftItems items) .closed, rest) := by
  match items with
  | [] => exact absurd rfl hne
  | [x] =>
    obtain ⟨hx, -⟩ := h
    rw [Json.itemChars, List.length_append, List.length_singleton] at hturns
    obtain ⟨turns, rfl⟩ : ∃ m, turns = m + 1 := ⟨turns - 1, by omega⟩
    rw [Json.itemChars, List.append_assoc, List.singleton_append,
      moreItems_last (value_chars x _ _ hx (by omega) (delimited_cons (by decide) _))
        (endingFault?_draft x)]
    rfl
  | x :: y :: ys =>
    obtain ⟨hx, hxs⟩ := h
    obtain ⟨c, cs, hc, hblank, hend⟩ := exists_itemChars_cons hxs
    rw [Json.itemChars_cons_cons, List.length_append, List.length_cons] at hturns
    obtain ⟨turns, rfl⟩ : ∃ m, turns = m + 1 := ⟨turns - 1, by omega⟩
    have hvalue := value_chars x turns _ hx (by omega)
      (delimited_cons (c := ',') (by decide) (c :: (cs ++ rest)))
    rw [Json.itemChars_cons_cons, List.append_assoc, List.cons_append, hc, List.cons_append,
      moreItems_comma hvalue (endingFault?_draft x) hblank hend, ← List.cons_append, ← hc,
      moreItems_itemChars (y :: ys) (by simp) hxs (by omega)]
    simp [Json.draftItems]

theorem moreMembers_memberChars (members : List (String × Json)) {depth turns : Nat}
    {comma : Bool} {rest : List Char} {done : List (String × Draft)} (hne : members ≠ [])
    (h : Json.FitsMembers depth members)
    (hturns : 3 * (Json.memberChars members).length ≤ turns) :
    moreMembers turns depth comma (Json.memberChars members ++ rest) done =
      (.record (done.reverse ++ Json.draftMembers members) .closed, rest) := by
  match members with
  | [] => exact absurd rfl hne
  | [(name, x)] =>
    obtain ⟨hx, -⟩ := h
    rw [Json.memberChars, List.length_append, List.length_cons, List.length_append,
      List.length_singleton] at hturns
    obtain ⟨turns, rfl⟩ : ∃ m, turns = m + 1 := ⟨turns - 1, by omega⟩
    obtain ⟨cs, hcs, hname⟩ := quoted_quote name turns
      (':' :: (x.chars ++ '\x7d' :: rest)) (by omega)
    have hvalue := value_chars x turns _ hx (by omega)
      (delimited_cons (c := '\x7d') (by decide) rest)
    rw [Json.memberChars, List.append_assoc, List.cons_append, List.append_assoc,
      List.singleton_append, hcs, moreMembers_last hname hvalue (endingFault?_draft x)]
    rfl
  | (name, x) :: (name', y) :: ys =>
    obtain ⟨hx, hxs⟩ := h
    obtain ⟨ds, hds⟩ := exists_memberChars_cons name' y ys
    rw [Json.memberChars_cons_cons, List.length_append, List.length_cons, List.length_append,
      List.length_cons] at hturns
    obtain ⟨turns, rfl⟩ : ∃ m, turns = m + 1 := ⟨turns - 1, by omega⟩
    obtain ⟨cs, hcs, hname⟩ := quoted_quote name turns
      (':' :: (x.chars ++ ',' :: '"' :: (ds ++ rest))) (by omega)
    have hvalue := value_chars x turns _ hx (by omega)
      (delimited_cons (c := ',') (by decide) ('"' :: (ds ++ rest)))
    rw [Json.memberChars_cons_cons, List.append_assoc, List.cons_append, List.append_assoc,
      List.cons_append, hds, List.cons_append, hcs,
      moreMembers_comma hname hvalue (endingFault?_draft x), ← List.cons_append, ← hds,
      moreMembers_memberChars ((name', y) :: ys) (by simp) hxs (by omega)]
    simp [Json.draftMembers]

end

end Values

/-- A document on one line is read back whole. -/
theorem parse_compact {j : Json} (h : j.Fits maxDepth) : parse j.compact = ⟨j.draft, none⟩ := by
  have hvalue := value_chars j (3 * j.chars.length + 3) [] h (by omega)
    (fun _ hc => by cases hc)
  rw [List.append_nil] at hvalue
  rw [parse, Json.compact, String.toList_ofList, hvalue]
  rfl

end Draft

namespace Decode

lemma parse_compact {α : Type} {j : Json} {item : Decode α} (h : j.Fits Draft.maxDepth) :
    parse item j.compact = item j.draft := by
  rw [parse, Draft.parse_compact h]
  cases item j.draft <;> rfl

end Decode

namespace Json

mutual

theorem draft_inj {j j' : Json} (h : j.draft = j'.draft) : j = j' := by
  cases j with
  | null => cases j' <;> simp_all [draft]
  | bool b => cases j' <;> simp_all [draft]
  | int n => cases j' <;> simp_all [draft]
  | string text => cases j' <;> simp_all [draft]
  | list items =>
    cases j' with
    | list items' => rw [draftItems_inj (by simpa [draft] using h : draftItems items = _)]
    | _ => simp [draft] at h
  | record members =>
    cases j' with
    | record members' => rw [draftMembers_inj (by simpa [draft] using h : draftMembers members = _)]
    | _ => simp [draft] at h

theorem draftItems_inj {xs ys : List Json} (h : draftItems xs = draftItems ys) : xs = ys := by
  cases xs with
  | nil => cases ys <;> simp_all [draftItems]
  | cons x xs =>
    cases ys with
    | nil => simp [draftItems] at h
    | cons y ys =>
      rw [draftItems, draftItems, List.cons.injEq] at h
      rw [draft_inj h.1, draftItems_inj h.2]

theorem draftMembers_inj {xs ys : List (String × Json)} (h : draftMembers xs = draftMembers ys) :
    xs = ys := by
  cases xs with
  | nil => cases ys <;> simp_all [draftMembers]
  | cons x xs =>
    obtain ⟨name, x⟩ := x
    cases ys with
    | nil => simp [draftMembers] at h
    | cons y ys =>
      obtain ⟨name', y⟩ := y
      rw [draftMembers, draftMembers, List.cons.injEq, Prod.mk.injEq] at h
      rw [h.1.1, draft_inj h.1.2, draftMembers_inj h.2]

end

theorem compact_inj {j j' : Json} (h : j.Fits Draft.maxDepth) (h' : j'.Fits Draft.maxDepth)
    (heq : j.compact = j'.compact) : j = j' := by
  have hparse := Draft.parse_compact h
  rw [heq, Draft.parse_compact h'] at hparse
  exact draft_inj (congrArg Draft.Text.draft hparse).symm

end Json

end ClassWeaver
