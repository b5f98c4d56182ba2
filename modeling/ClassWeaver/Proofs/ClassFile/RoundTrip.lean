import ClassWeaver.Proofs.ClassFile.Contents
import ClassWeaver.Proofs.Pool.PoolBytes

/-! Parsing is the inverse of writing: the bytes that parse as a class file are its encoding, and
every class file whose parts fit its pool parses from there. -/

namespace ClassWeaver

open Read

namespace ClassFile

lemma reads_version : Reads readVersion
    (fun v => oldestVersion ≤ v.2 ∧ v.2 ≤ newestVersion)
    (fun v => be32 magic ++ (be16 v.1 ++ be16 v.2)) := by
  rintro ⟨pos, bs⟩ ⟨minor, major⟩ ⟨pos', rest⟩
  simp only [readVersion, u32_then_iff, else_fail_iff, u16_then_iff, pure_eq_ok_iff,
    Reader.mk.injEq]
  constructor
  · rintro ⟨_, _, rfl, rfl, _, _, rfl, _, _, rfl, hv, hx, rfl, rfl⟩
    cases hx
    exact ⟨hv, by simp only [List.append_assoc], rfl⟩
  · rintro ⟨hv, rfl, rfl⟩
    exact ⟨magic, _, List.append_assoc .., rfl, minor, _, List.append_assoc .., major, rest, rfl,
      hv, rfl, rfl, rfl⟩

lemma reads_interface (pool : Pool) : Reads (readInterface pool)
    (fun x => pool.className x.1 = .ok x.2) (fun x => be16 x.1) := by
  rintro ⟨pos, bs⟩ ⟨i, name⟩ ⟨pos', rest⟩
  simp only [readInterface, u16_then_iff, lift_then_iff, pure_eq_ok_iff, Reader.mk.injEq]
  constructor
  · rintro ⟨_, _, rfl, _, hn, hx, rfl, rfl⟩
    cases hx
    exact ⟨hn, rfl, rfl⟩
  · rintro ⟨hn, rfl, rfl⟩
    exact ⟨i, rest, rfl, name, hn, rfl, rfl, rfl⟩

lemma superName_then_iff {superClass : UInt16} {result : Except ClassFault String} {β : Type}
    {next : Option String → Read β} {r : Reader} {x : β × Reader} :
    (if superClass = 0 then do
        let superName ← pure none
        next superName
      else do
        let superName ← some <$> Read.lift result
        next superName) r = .ok x ↔
      ∃ superName, (if superClass = 0 then superName = none
        else ∃ name, result = .ok name ∧ superName = some name) ∧ next superName r = .ok x := by
  split
  · simp
  · cases result with
    | error fault =>
      constructor
      · intro h
        cases h
      · rintro ⟨_, ⟨_, h, -⟩, -⟩
        cases h
    | ok name =>
      constructor
      · intro h
        exact ⟨some name, ⟨name, rfl, rfl⟩, h⟩
      · rintro ⟨_, ⟨_, h, rfl⟩, hn⟩
        cases h
        exact hn

lemma readClassAttributes_mono {p q : Pool} (h : p.Extends q) {as bs : List (Nat × Attribute)}
    {annotations applied : List (List String)} {x : List String × List String}
    (hx : readClassAttributes p as annotations applied = .ok x)
    (he : as.map (·.2) = bs.map (·.2)) : readClassAttributes q bs annotations applied = .ok x := by
  have carries_marker : Carries (readMarker p) (readMarker q) := by
    refine Carries.counted ?_ _
    exact (reads_u16 _).carries.bind fun _ => carries_lift fun _ => h.utf8
  induction as generalizing bs annotations applied with
  | nil =>
    rw [List.map_nil, eq_comm, List.map_eq_nil_iff] at he
    rw [he]
    exact hx
  | cons a as ih =>
    obtain ⟨b, bs, rfl, hab, hrest⟩ := List.map_eq_cons_iff.1 he.symm
    obtain ⟨pos, a⟩ := a
    obtain ⟨pos', b⟩ := b
    obtain rfl : b = a := hab
    rw [readClassAttributes] at hx ⊢
    split at hx
    · rw [if_pos ‹_›]
      split at hx
      · cases hx
      · next types ht =>
        have ht' : b.readBody pos' (Annotations.readTypes q) = .ok types :=
          (Annotations.carries_readTypes h).runAt ht _
        rw [ht']
        exact ih hx hrest.symm
    · rw [if_neg ‹_›]
      split at hx
      · rw [if_pos ‹_›]
        split at hx
        · cases hx
        · next rules hr =>
          have hr' : b.readBody pos' (readMarker q) = .ok rules := carries_marker.runAt hr _
          rw [hr']
          exact ih hx hrest.symm
      · rw [if_neg ‹_›]
        exact ih hx hrest.symm

structure Fits (c : ClassFile) : Prop where
  version : oldestVersion ≤ c.majorVersion ∧ c.majorVersion ≤ newestVersion
  name : c.pool.className c.thisClass = .ok c.name
  superName : if c.superClass = 0 then c.superName = none
    else ∃ name, c.pool.className c.superClass = .ok name ∧ c.superName = some name
  interfaces : ∃ pairs : List (UInt16 × String),
    AllFit (fun x => c.pool.className x.1 = .ok x.2) pairs ∧
    c.interfaces = pairs.map (·.1) ∧ c.interfaceNames = pairs.map (·.2)
  fields : AllFit (Field.Fits c.pool) c.fields
  methods : AllFit (Method.Fits c.pool) c.methods
  attributes : AllFit (Attribute.Fits c.pool) c.attributes
  content : readClassAttributes c.pool (Attribute.place 0 c.attributes) [] [] =
    .ok (c.annotations, c.appliedRules)

theorem parse_iff {bs : Bytes} {c : ClassFile} :
    parse bs = .ok c ↔ c.pool.Whole ∧ c.Fits ∧ bs = c.encode := by
  have moved {a b : Nat} {p : Pool} {as : List Attribute} {x : List String × List String}
      (h : readClassAttributes p (Attribute.place a as) [] [] = .ok x) :
      readClassAttributes p (Attribute.place b as) [] [] = .ok x :=
    readClassAttributes_mono (Pool.Extends.refl p) h
      (by rw [Attribute.place_map_snd, Attribute.place_map_snd])
  simp only [parse, runAt_eq_ok_iff, ClassFile.read, reads_version.then_iff, Pool.then_iff,
    u16_then_iff, lift_then_iff, superName_then_iff, ((reads_interface _).counted _).then_iff,
    ((Field.reads _).counted _).then_iff, ((Method.reads _).counted _).then_iff, offset_then_iff,
    (Attribute.reads_all _).then_iff, remaining_then_iff, else_fail_iff]
  constructor
  · rintro ⟨r', ⟨minor, major⟩, _, hv, rfl, pool, _, n, hw, hcount, rfl, accessFlags, _, rfl,
      thisClass, _, rfl, name, hname, superClass, _, rfl, superName, hsuper, interfaces, _, hi, rfl,
      fields, _, hf, rfl, methods, _, hm, rfl, attributes, rest, ha, rfl, hrest,
      ⟨annotations, applied⟩, hx, he⟩
    cases he
    refine ⟨hw, ⟨hv, hname, hsuper, ⟨interfaces, hi, rfl, rfl⟩, hf, hm, ha, moved hx⟩, ?_⟩
    have hn : count16 pool.count = be16 n := by
      have hlt := Pool.one_lt_count hw hname
      rw [count16, hcount, Nat.sub_add_cancel (by omega), UInt16.ofNat_toNat]
    rw [List.length_eq_zero_iff.1 hrest]
    simp only [encode, encodeHead, encodeRelations, encodeFields, encodeMethods, hw.encode_eq, hn,
      List.append_assoc, List.append_nil, List.length_map, List.flatMap_map]
  · rintro ⟨hw, ⟨hv, hname, hsuper, ⟨pairs, hi, hi1, hi2⟩, hf, hm, ha, hx⟩, rfl⟩
    have hcount : (UInt16.ofNat c.pool.count).toNat = c.pool.count := by
      have hle := hw.count_le
      rw [Pool.maxSlots] at hle
      exact toNat_count16 (by omega)
    have hlt := Pool.one_lt_count hw hname
    have hencode : c.encode = be32 magic ++ (be16 c.minorVersion ++ be16 c.majorVersion) ++
        (be16 (UInt16.ofNat c.pool.count) ++ (c.pool.raw ++ (be16 c.accessFlags ++
          (be16 c.thisClass ++ (be16 c.superClass ++
            ((count16 pairs.length ++ pairs.flatMap fun x => be16 x.1) ++
              ((count16 c.fields.length ++ c.fields.flatMap Field.encode) ++
                ((count16 c.methods.length ++ c.methods.flatMap Method.encode) ++
                  (Attribute.encodeAll c.attributes ++ []))))))))) := by
      simp only [encode, encodeHead, encodeRelations, encodeFields, encodeMethods, hw.encode_eq,
        hi1, List.append_assoc, List.append_nil, List.length_map, List.flatMap_map, count16]
    refine ⟨⟨_, []⟩, (c.minorVersion, c.majorVersion), _, hv, hencode, c.pool, _,
      UInt16.ofNat c.pool.count, hw, by omega, rfl, c.accessFlags, _, rfl, c.thisClass, _, rfl,
      c.name, hname, c.superClass, _, rfl, c.superName, hsuper, pairs, _, hi, rfl, c.fields, _, hf,
      rfl, c.methods, _, hm, rfl, c.attributes, [], ha, rfl, rfl, (c.annotations, c.appliedRules),
      moved hx, by rw [← hi1, ← hi2]; rfl⟩

end ClassFile

namespace Sample

def code : Code := ⟨1, 0, [0x03, 0x99, 0x00, 0x04, 0xb1, 0xb1], [], []⟩

def method : Method :=
  ⟨9, 3, 4, "f", "()V", [⟨5, "Code", code.encode⟩], some (0, code), []⟩

def pool : Pool :=
  ⟨#[.unusable, .utf8 "A", .classRef 1, .utf8 "f", .utf8 "()V", .utf8 "Code"], 6,
    [1, 0, 1, 65, 7, 0, 1, 1, 0, 1, 102, 1, 0, 3, 40, 41, 86, 1, 0, 4, 67, 111, 100, 101]⟩

def file : ClassFile where
  minorVersion := 0
  majorVersion := 49
  pool := pool
  accessFlags := 1
  thisClass := 2
  superClass := 0
  interfaces := []
  name := "A"
  superName := none
  interfaceNames := []
  fields := []
  methods := [method]
  attributes := []
  annotations := []
  appliedRules := []

lemma parse_file : ClassFile.parse file.encode = .ok file := by decide +kernel

end Sample

end ClassWeaver
