import Mathlib.Data.List.Chain
import ClassWeaver.Proofs.Code.ShortestStackMap

/-! Which frames a stack map can tell. Those of every table that was read can be written again, and
no other table for them is shorter; frames that stand out of order or too far apart have no table. -/

namespace ClassWeaver

namespace Frame

structure Spaced (offsets : List Nat) : Prop where
  increasing : offsets.Pairwise (· < ·)
  first : ∀ offset ∈ offsets.head?, offset ≤ 65535
  gaps : offsets.IsChain fun p q => q ≤ p + 65536

def Follows (p q : Nat) : Prop := p < q ∧ q ≤ p + 65536

lemma isChain_follows_iff {offsets : List Nat} :
    offsets.IsChain Follows ↔
      offsets.Pairwise (· < ·) ∧ offsets.IsChain fun p q => q ≤ p + 65536 := by
  rw [← List.isChain_iff_pairwise]
  induction offsets with
  | nil => simp
  | cons p offsets ih =>
    rw [List.isChain_cons, List.isChain_cons, List.isChain_cons, ih]
    constructor
    · rintro ⟨hnext, hlt, hle⟩
      exact ⟨⟨fun q hq => (hnext q hq).1, hlt⟩, fun q hq => (hnext q hq).2, hle⟩
    · rintro ⟨⟨hnextLt, hlt⟩, hnextLe, hle⟩
      exact ⟨fun q hq => ⟨hnextLt q hq, hnextLe q hq⟩, hlt, hle⟩

lemma exists_encodeFrom_iff {p : Nat} {frames : List Frame} {done : List Bytes} :
    (∃ bs, encodeFrom (some p) frames done = .ok bs) ↔
      (p :: frames.map (·.offset)).IsChain Follows := by
  induction frames generalizing p done with
  | nil => simp [encodeFrom]
  | cons frame frames ih =>
    rw [List.map_cons, List.isChain_cons_cons, encodeFrom, deltaAfter]
    by_cases hlt : p < frame.offset
    · rw [if_pos hlt]
      dsimp only
      by_cases hfar : 65535 < frame.offset - p - 1
      · rw [if_pos hfar]
        simp only [reduceCtorEq, exists_false, false_iff]
        rintro ⟨⟨-, hle⟩, -⟩
        omega
      · rw [if_neg hfar, ih]
        have hfollows : Follows p frame.offset := ⟨hlt, by omega⟩
        simp [hfollows]
    · rw [if_neg hlt]
      simp only [reduceCtorEq, exists_false, false_iff]
      exact fun h => hlt h.1.1

lemma exists_encode_iff {frames : List Frame} :
    (∃ bs, encode frames = .ok bs) ↔ Spaced (frames.map (·.offset)) := by
  have hspaced : Spaced (frames.map (·.offset)) ↔
      (∀ offset ∈ (frames.map (·.offset)).head?, offset ≤ 65535) ∧
        (frames.map (·.offset)).IsChain Follows := by
    rw [isChain_follows_iff]
    exact ⟨fun h => ⟨h.first, h.increasing, h.gaps⟩, fun h => ⟨h.2.1, h.1, h.2.2⟩⟩
  have hbody : (∃ bs, encode frames = .ok bs) ↔ ∃ bs, encodeFrom none frames [] = .ok bs := by
    simp only [encode, map_eq_ok_iff]
    exact ⟨fun ⟨_, body, h, _⟩ => ⟨body, h⟩, fun ⟨body, h⟩ => ⟨_, body, h, rfl⟩⟩
  rw [hspaced, hbody]
  cases frames with
  | nil => simp [encodeFrom]
  | cons frame frames =>
    rw [encodeFrom, deltaAfter, List.map_cons, List.head?_cons]
    dsimp only
    by_cases hfar : 65535 < frame.offset
    · rw [if_pos hfar]
      simp [hfar]
    · rw [if_neg hfar, exists_encodeFrom_iff]
      simp [Nat.le_of_not_lt hfar]

lemma Spaced.le {offsets : List Nat} (h : Spaced offsets) :
    ∀ offset ∈ offsets, offset + 1 ≤ 65536 * offsets.length := by
  have hfrom : ∀ (rest : List Nat) (p : Nat), (p :: rest).IsChain (fun p q => q ≤ p + 65536) →
      ∀ offset ∈ p :: rest, offset ≤ p + 65536 * rest.length := by
    intro rest
    induction rest with
    | nil => simp
    | cons q rest ih =>
      intro p hchain offset hmem
      obtain ⟨hpq, hrest⟩ := List.isChain_cons_cons.1 hchain
      rw [List.length_cons]
      rcases List.mem_cons.1 hmem with rfl | hmem
      · omega
      · have hle := ih q hrest offset hmem
        omega
  cases offsets with
  | nil => simp
  | cons p rest =>
    intro offset hmem
    have hle := hfrom rest p h.gaps offset hmem
    have hfirst := h.first p rfl
    rw [List.length_cons]
    omega

/-- Reading and writing a stack map are inverse. The frames of a table stand in strict order at
offsets of thirty-two bits, and the table that is written for them is read as the same frames and as
short as any other. Conversely all frames that fit their fields and are spaced have a table, and only
the spacing decides whether one is written. -/
theorem encode_inverts_parse (frames : List Frame) :
    (∀ bs, parse bs = .ok frames →
      (frames.map (·.offset)).Pairwise (· < ·) ∧ (∀ frame ∈ frames, frame.offset < 4294967296) ∧
        ∃ written, encode frames = .ok written ∧ parse written = .ok frames ∧
          ∀ other, parse other = .ok frames → written.length ≤ other.length) ∧
    (AllFit frames → Spaced (frames.map (·.offset)) →
      ∃ written, encode frames = .ok written ∧ parse written = .ok frames) ∧
    ((∃ fault, encode frames = .error fault) ↔ ¬ Spaced (frames.map (·.offset))) := by
  refine ⟨fun bs h => ?_, fun hfit hspaced => ?_, ?_⟩
  · obtain ⟨written, hw, -⟩ := encode_of_parse h
    have hfit := allFit_of_parse h
    have hspaced := exists_encode_iff.1 ⟨written, hw⟩
    refine ⟨hspaced.increasing, fun frame hmem => ?_, written, hw, parse_encode hfit hw, ?_⟩
    · have hle := hspaced.le frame.offset (List.mem_map_of_mem hmem)
      have hlen := hfit.1
      rw [List.length_map] at hle
      omega
    · intro other hother
      obtain ⟨written', hw', hlen⟩ := encode_of_parse hother
      cases hw.symm.trans hw'
      exact hlen
  · obtain ⟨written, hw⟩ := exists_encode_iff.2 hspaced
    exact ⟨written, hw, parse_encode hfit hw⟩
  · rw [← exists_encode_iff]
    cases encode frames <;> simp

end Frame

namespace Sample

def frames : List Frame :=
  [⟨63, .same⟩, ⟨128, .same⟩, ⟨192, .sameLocals1 .int⟩, ⟨257, .sameLocals1 (.object 9)⟩,
    ⟨65793, .chop 3⟩, ⟨65794, .append [.long, .uninitialized 65535]⟩, ⟨65795, .full [.top] []⟩]

def stackMap : Bytes :=
  [0, 7, 251, 0, 63, 251, 0, 64, 247, 0, 63, 1, 247, 0, 64, 7, 0, 9, 248, 255, 255,
    253, 0, 0, 4, 8, 255, 255, 255, 0, 0, 0, 1, 0, 0, 0]

end Sample

theorem Frame.encode_inverts_parse_sample :
    parse Sample.stackMap = .ok Sample.frames ∧
      (∃ written, encode Sample.frames = .ok written ∧ parse written = .ok Sample.frames ∧
        written.length ≤ Sample.stackMap.length) ∧
      ∃ fault, encode Sample.frames.reverse = .error fault := by
  have hparse : parse Sample.stackMap = .ok Sample.frames := by decide +kernel
  have hspaced : Spaced (Sample.frames.map (·.offset)) := ⟨by decide, by decide, by decide⟩
  obtain ⟨hread, hfit, -⟩ := encode_inverts_parse Sample.frames
  obtain ⟨-, -, written, hw, -, hshort⟩ := hread _ hparse
  obtain ⟨written', hw', hback⟩ := hfit (allFit_of_parse hparse) hspaced
  cases hw.symm.trans hw'
  obtain ⟨-, -, hfails⟩ := encode_inverts_parse Sample.frames.reverse
  have hunordered : ¬ Spaced (Sample.frames.reverse.map (·.offset)) :=
    fun h => absurd h.increasing (by decide)
  exact ⟨hparse, ⟨written, hw, hback, hshort _ hparse⟩, hfails.2 hunordered⟩

end ClassWeaver
