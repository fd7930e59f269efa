import WinCompat.Lib.Assoc
import WinCompat.Loader.ExportReads
import WinCompat.Loader.OneModule

/-!
# Lookups by name and by ordinal

The names of a table come from a loop that stops at the first it cannot read and takes the function
array as it is in memory; the array for ordinals is collected from what can be read, up to
`NumberOfFunctions`. Reading fails only from some index on, so that the array does not shift.

The two agree, and lookups stay in the image and out of the directory, exactly if no name before an
export that can be called is unreadable, no name leads past the array to what could be called, and
no function is at the last address of an image of 4 GiB (`lookups_agree_iff`).
-/

namespace WinCompat.Loader

open Lib Lib.Paging

variable {space : Space} {img : MappedImage} {f : DirectoryFields}

/-! ## What the directory says -/

/-- The word at an index of the function array. -/
def functionWord (space : Space) (img : MappedImage) (f : DirectoryFields) (index : Nat) :
    Option (BitVec 32) :=
  readU32 space img (elemRva f.addrFunctions (BitVec.ofNat 32 index) 4)

/-- The `i`-th export name, and its index into the function array. -/
structure NamedAt (space : Space) (img : MappedImage) (f : DirectoryFields) (i : Nat)
    (name : List Byte) (ordIdx : BitVec 16) : Prop where
  lt : i < f.nNames.toNat
  name : ∃ nameRva, readU32 space img (elemRva f.addrNames (BitVec.ofNat 32 i) 4) = some nameRva ∧
    readBytesNul space img nameRva = some name
  ordinal : readU16 space img (elemRva f.addrOrdinals (BitVec.ofNat 32 i) 2) = some ordIdx

/-- What the loop over the names reads of the `i`-th. -/
def nameEntry (space : Space) (img : MappedImage) (f : DirectoryFields) (i : Nat) :
    Option (List Byte × BitVec 32) :=
  namedExport space img f.addrFunctions f.addrNames f.addrOrdinals (BitVec.ofNat 32 i)

/-- The loop over the names gets to the `i`-th. -/
def Reached (space : Space) (img : MappedImage) (f : DirectoryFields) (i : Nat) : Prop :=
  ∀ j < i, (nameEntry space img f j).isSome

def NamesDistinct (space : Space) (img : MappedImage) (f : DirectoryFields) : Prop :=
  ∀ i j name ordIdx ordIdx', NamedAt space img f i name ordIdx →
    NamedAt space img f j name ordIdx' → i = j

variable {i : Nat}

variable {e : List Byte × BitVec 32}

theorem namedAt_of_nameEntry (hi : i < f.nNames.toNat) (h : nameEntry space img f i = some e) :
    ∃ ordIdx, NamedAt space img f i e.1 ordIdx ∧
      functionWord space img f ordIdx.toNat = some e.2 := by
  unfold nameEntry namedExport at h
  simp only [Option.bind_eq_bind, Option.bind_eq_some_iff, Option.pure_def,
    Option.some.injEq] at h
  obtain ⟨nameRva, hname, ordIdx, hord, funcRva, hfunc, name, hbytes, rfl⟩ := h
  refine ⟨ordIdx, ⟨hi, ⟨nameRva, hname, hbytes⟩, hord⟩, ?_⟩
  unfold functionWord
  rwa [BitVec.ofNat_toNat]

variable {name : List Byte} {ordIdx : BitVec 16}

theorem nameEntry_of_namedAt (h : NamedAt space img f i name ordIdx) :
    nameEntry space img f i = (functionWord space img f ordIdx.toNat).map fun rva => (name, rva) := by
  obtain ⟨nameRva, hname, hbytes⟩ := h.name
  unfold nameEntry namedExport functionWord
  rw [BitVec.ofNat_toNat]
  simp only [hname, h.ordinal, hbytes, Option.bind_eq_bind, Option.bind_some]
  cases readU32 space img (elemRva f.addrFunctions (ordIdx.setWidth 32) 4) with
  | none => rfl
  | some rva => rfl

/-! ## The two halves of the table -/

theorem mem_namedExports {entry : BitVec 32 → Option (List Byte × BitVec 32)} :
    ∀ {left i : Nat} {out : List (List Byte × BitVec 32)},
      e ∈ namedExports entry left i out ↔ e ∈ out ∨ ∃ j, i ≤ j ∧ j < i + left ∧
        (∀ k, i ≤ k → k < j → (entry (BitVec.ofNat 32 k)).isSome) ∧
        entry (BitVec.ofNat 32 j) = some e := by
  intro left
  induction left with
  | zero =>
    intro i out
    refine (or_iff_left ?_).symm
    rintro ⟨j, hlow, hhigh, -⟩
    omega
  | succ left ih =>
    intro i out
    unfold namedExports
    cases hentry : entry (BitVec.ofNat 32 i) with
    | none =>
      refine (or_iff_left ?_).symm
      rintro ⟨j, hlow, hhigh, hbefore, hmem⟩
      by_cases hji : j = i
      · rw [hji, hentry] at hmem
        cases hmem
      · have hsome := hbefore i (Nat.le_refl i) (by omega)
        rw [hentry] at hsome
        cases hsome
    | some e' =>
      show e ∈ namedExports entry left (i + 1) (e' :: out) ↔ _
      rw [ih, List.mem_cons]
      constructor
      · rintro ((rfl | hout) | ⟨j, hlow, hhigh, hbefore, hmem⟩)
        · exact Or.inr ⟨i, Nat.le_refl i, by omega, fun k hk hki => by omega, hentry⟩
        · exact Or.inl hout
        · refine Or.inr ⟨j, by omega, by omega, ?_, hmem⟩
          intro k hk hkj
          by_cases hki : k = i
          · rw [hki, hentry]
            rfl
          · exact hbefore k (by omega) hkj
      · rintro (hout | ⟨j, hlow, hhigh, hbefore, hmem⟩)
        · exact Or.inl (Or.inr hout)
        · by_cases hji : j = i
          · rw [hji, hentry] at hmem
            cases hmem
            exact Or.inl (Or.inl rfl)
          · exact Or.inr ⟨j, by omega, by omega, fun k hk hkj => hbefore k (by omega) hkj, hmem⟩

/-- The names of the table. -/
def nameList (space : Space) (img : MappedImage) (f : DirectoryFields) :
    List (List Byte × BitVec 32) :=
  namedExports (namedExport space img f.addrFunctions f.addrNames f.addrOrdinals) f.nNames.toNat
    0 []

theorem mem_nameList :
    e ∈ nameList space img f ↔
      ∃ i < f.nNames.toNat, Reached space img f i ∧ nameEntry space img f i = some e := by
  unfold nameList
  rw [mem_namedExports]
  simp only [List.not_mem_nil, false_or, Nat.zero_le, true_and, Nat.zero_add, forall_const]
  rfl

variable {rva : BitVec 32}

theorem lookup_nameList (hdistinct : NamesDistinct space img f) :
    (nameList space img f).lookup name = some rva ↔ ∃ i ordIdx, NamedAt space img f i name ordIdx ∧
      Reached space img f i ∧ functionWord space img f ordIdx.toNat = some rva := by
  have hone : ∀ name rva rva', (name, rva) ∈ nameList space img f →
      (name, rva') ∈ nameList space img f → rva = rva' := by
    intro name rva rva' hmem hmem'
    obtain ⟨i, hi, -, hentry⟩ := mem_nameList.mp hmem
    obtain ⟨j, hj, -, hentry'⟩ := mem_nameList.mp hmem'
    obtain ⟨_, hnamed, -⟩ := namedAt_of_nameEntry hi hentry
    obtain ⟨_, hnamed', -⟩ := namedAt_of_nameEntry hj hentry'
    rw [hdistinct i j name _ _ hnamed hnamed', hentry'] at hentry
    cases hentry
    rfl
  rw [Assoc.lookup_eq_some_iff_mem hone, mem_nameList]
  constructor
  · rintro ⟨i, hi, hreached, hentry⟩
    obtain ⟨ordIdx, hnamed, hword⟩ := namedAt_of_nameEntry hi hentry
    exact ⟨i, ordIdx, hnamed, hreached, hword⟩
  · rintro ⟨i, ordIdx, hnamed, hreached, hword⟩
    refine ⟨i, hnamed.lt, hreached, ?_⟩
    rw [nameEntry_of_namedAt hnamed, hword]
    rfl

theorem elemRva_toNat (a index size : BitVec 32) :
    (elemRva a index size).toNat =
      min (a.toNat + min (index.toNat * size.toNat) (2 ^ 32 - 1)) (2 ^ 32 - 1) := by
  have hadd : ∀ x y : BitVec 32,
      (saturatingAdd x y).toNat = min (x.toNat + y.toNat) (2 ^ 32 - 1) := by
    intro x y
    unfold saturatingAdd
    split_ifs with h
    · rw [BitVec.toNat_add, Nat.mod_eq_of_lt h]
      omega
    · rw [BitVec.toNat_allOnes]
      omega
  have hmul : ∀ x y : BitVec 32,
      (saturatingMul x y).toNat = min (x.toNat * y.toNat) (2 ^ 32 - 1) := by
    intro x y
    unfold saturatingMul
    split_ifs with h
    · rw [BitVec.toNat_mul, Nat.mod_eq_of_lt h]
      omega
    · rw [BitVec.toNat_allOnes]
      omega
  unfold elemRva
  rw [hadd, hmul]

theorem functionWord_eq_none {index : Nat} : functionWord space img f index = none ↔
    img.size ≤ (elemRva f.addrFunctions (BitVec.ofNat 32 index) 4).toNat := by
  unfold functionWord readU32 MappedImage.rvaToPtr
  rw [Option.map_eq_none_iff]
  split_ifs with h
  · exact iff_of_false nofun (Nat.not_le.mpr h)
  · exact iff_of_true rfl (Nat.le_of_not_lt h)

theorem functionWord_suffix {i j : Nat} (hij : i ≤ j) (hj : j < 2 ^ 32)
    (h : functionWord space img f i = none) : functionWord space img f j = none := by
  rw [functionWord_eq_none] at h ⊢
  refine Nat.le_trans h ?_
  rw [elemRva_toNat, elemRva_toNat, BitVec.toNat_ofNat, BitVec.toNat_ofNat, Nat.mod_eq_of_lt hj,
    Nat.mod_eq_of_lt (Nat.lt_of_le_of_lt hij hj)]
  have hmul : i * (4 : BitVec 32).toNat ≤ j * (4 : BitVec 32).toNat := Nat.mul_le_mul_right _ hij
  omega

theorem getElem?_functionRvas (index : Nat) :
    ((List.range f.nFunctions.toNat).filterMap (functionWord space img f))[index]? =
      if index < f.nFunctions.toNat then functionWord space img f index else none := by
  -- Beyond the array nothing is looked at, so the words there may count as unreadable.
  have hcut : (List.range f.nFunctions.toNat).filterMap (functionWord space img f) =
      (List.range f.nFunctions.toNat).filterMap fun i =>
        if i < 2 ^ 32 then functionWord space img f i else none := by
    apply List.filterMap_congr
    intro i hi
    have hlt := f.nFunctions.isLt
    rw [if_pos (Nat.lt_trans (List.mem_range.mp hi) hlt)]
  rw [hcut, Assoc.getElem?_filterMap_range]
  · have hlt := f.nFunctions.isLt
    split_ifs with hin hbig
    · rfl
    · omega
    · rfl
  · intro i j hij hnone
    by_cases hj : j < 2 ^ 32
    · rw [if_pos (Nat.lt_of_le_of_lt hij hj)] at hnone
      rw [if_pos hj]
      exact functionWord_suffix hij hj hnone
    · exact if_neg hj

/-! ## Lookups in a module -/

/-- An RVA that a lookup gives out as an address. -/
def Callable (img : MappedImage) (dir : DataDirectory) (rva : BitVec 32) : Prop :=
  rva ≠ 0 ∧ ¬ (dir.virtualAddress.toNat ≤ rva.toNat ∧
    rva.toNat < (saturatingAdd dir.virtualAddress dir.size).toNat) ∧ rva.toNat < img.size

instance (img : MappedImage) (dir : DataDirectory) (rva : BitVec 32) :
    Decidable (Callable img dir rva) := inferInstanceAs (Decidable (_ ∧ _))

/-- The exports of the module are what was read of its image. -/
def Parsed (space : Space) (m : LoadedModule) (dir : DataDirectory) (f : DirectoryFields) : Prop :=
  m.exports = ⟨nameList space m.image f,
    (List.range f.nFunctions.toNat).filterMap (functionWord space m.image f), f.ordinalBase, dir⟩

variable {m : LoadedModule} {dir : DataDirectory}

theorem parsed_of_parse (htable : m.exports = parseExportTable space m.image)
    (hdir : locateExportDir space m.image = some dir)
    (hf : directoryFields space m.image dir = some f) : Parsed space m dir f := by
  unfold Parsed
  rw [htable, parseExportTable_of_some hdir hf]
  rfl

theorem exportAddr_of_callable (hp : Parsed space m dir f) (h : Callable m.image dir rva) :
    exportAddr m rva = m.image.base + rva.toNat := by
  obtain ⟨hzero, hdir, hlt⟩ := h
  unfold exportAddr MappedImage.rvaToPtr
  rw [hp]
  dsimp only
  rw [if_neg (not_or.mpr ⟨hzero, hdir⟩), if_pos hlt]
  rfl

theorem exportAddr_of_not_callable (hp : Parsed space m dir f) (h : ¬ Callable m.image dir rva) :
    exportAddr m rva = 0 := by
  unfold exportAddr MappedImage.rvaToPtr
  rw [hp]
  dsimp only
  split_ifs with hrefused hlt
  · rfl
  · exact absurd ⟨fun hz => hrefused (Or.inl hz), fun hd => hrefused (Or.inr hd), hlt⟩ h
  · rfl

theorem procAddress_name_eq (hp : Parsed space m dir f) (bytes : List Byte) :
    m.procAddress (.name bytes) =
      match (nameList space m.image f).lookup (bytes.take maxNameLen) with
      | none => 0
      | some rva => exportAddr m rva := by
  change (match m.exports.names.lookup (bytes.take maxNameLen) with
    | none => 0
    | some rva => exportAddr m rva) = _
  rw [hp]

theorem procAddress_ordinal_eq (hp : Parsed space m dir f) (n : Nat) :
    m.procAddress (.ordinal n) =
      match ExportTable.functionRvaByOrdinal ⟨nameList space m.image f,
        (List.range f.nFunctions.toNat).filterMap (functionWord space m.image f), f.ordinalBase,
        dir⟩ (BitVec.ofNat 32 n) with
      | none => 0
      | some rva => exportAddr m rva := by
  change (match m.exports.functionRvaByOrdinal (BitVec.ofNat 32 n) with
    | none => 0
    | some rva => exportAddr m rva) = _
  rw [hp]

theorem readBytesNulFrom_length : ∀ {n : Nat} {off : BitVec 32} {bs : List Byte},
    readBytesNulFrom space img n off = some bs → bs.length < n := by
  intro n
  induction n with
  | zero =>
    intro off bs h
    cases h
  | succ n ih =>
    intro off bs h
    unfold readBytesNulFrom at h
    simp only [Option.bind_eq_bind, Option.bind_eq_some_iff, Option.pure_def] at h
    obtain ⟨p, -, h⟩ := h
    split_ifs at h
    · cases h
      exact Nat.zero_lt_succ n
    · simp only [Option.bind_eq_some_iff, Option.some.injEq] at h
      obtain ⟨next, -, rest, hrest, rfl⟩ := h
      exact Nat.succ_lt_succ (ih hrest)

theorem NamedAt.take (h : NamedAt space img f i name ordIdx) : name.take maxNameLen = name := by
  obtain ⟨_, -, hbytes⟩ := h.name
  exact List.take_of_length_le (Nat.le_of_lt (readBytesNulFrom_length hbytes))

theorem NamedAt.ordinal_unique {name name' : List Byte} {ordIdx ordIdx' : BitVec 16}
    (h : NamedAt space img f i name ordIdx) (h' : NamedAt space img f i name' ordIdx') :
    ordIdx = ordIdx' :=
  Option.some.inj (h.ordinal.symm.trans h'.ordinal)

/-- A lookup by name finds what its entry says. -/
theorem procAddress_name (hp : Parsed space m dir f) (hdistinct : NamesDistinct space m.image f)
    (h : NamedAt space m.image f i name ordIdx) (hreached : Reached space m.image f i)
    (hword : functionWord space m.image f ordIdx.toNat = some rva) :
    m.procAddress (.name name) = exportAddr m rva := by
  have hlookup := (lookup_nameList hdistinct).mpr ⟨i, ordIdx, h, hreached, hword⟩
  rw [procAddress_name_eq hp, h.take, hlookup]

theorem procAddress_name_none (hp : Parsed space m dir f)
    (hdistinct : NamesDistinct space m.image f) (h : NamedAt space m.image f i name ordIdx)
    (hnot : ¬ (Reached space m.image f i ∧
      ∃ rva, functionWord space m.image f ordIdx.toNat = some rva)) :
    m.procAddress (.name name) = 0 := by
  have hlookup : (nameList space m.image f).lookup name = none := by
    apply Option.eq_none_iff_forall_ne_some.mpr
    intro rva hsome
    obtain ⟨j, ordIdx', hnamed, hreached, hword⟩ := (lookup_nameList hdistinct).mp hsome
    obtain rfl := hdistinct i j name _ _ h hnamed
    rw [← h.ordinal_unique hnamed] at hword
    exact hnot ⟨hreached, rva, hword⟩
  rw [procAddress_name_eq hp, h.take, hlookup]

theorem procAddress_ordinal (hp : Parsed space m dir f) {index : Nat}
    (h : f.ordinalBase.toNat + index < 0x10000) :
    m.procAddress (.ordinal (f.ordinalBase.toNat + index)) =
      match if index < f.nFunctions.toNat then functionWord space m.image f index else none with
      | none => 0
      | some rva => exportAddr m rva := by
  have hmod : (BitVec.ofNat 32 (f.ordinalBase.toNat + index)).toNat =
      f.ordinalBase.toNat + index := by
    rw [BitVec.toNat_ofNat]
    exact Nat.mod_eq_of_lt (Nat.lt_trans h (by decide))
  rw [procAddress_ordinal_eq hp]
  unfold ExportTable.functionRvaByOrdinal
  simp only [hmod, Nat.le_add_right, if_true, Nat.add_sub_cancel_left, getElem?_functionRvas]

/-! ## Agreement -/

/-- An ordinal is below `0x10000`. -/
def ProcName.Valid : ProcName → Prop
  | .ordinal n => n < 0x10000
  | .name _ => True

/-- What lookups should answer. -/
structure LookupsAgree (space : Space) (img : MappedImage) (dir : DataDirectory)
    (f : DirectoryFields) (answer : ProcName → Nat) : Prop where
  agree : ∀ i name ordIdx, NamedAt space img f i name ordIdx →
    f.ordinalBase.toNat + ordIdx.toNat < 0x10000 →
      answer (.name name) = answer (.ordinal (f.ordinalBase.toNat + ordIdx.toNat))
  beyond : ∀ i name ordIdx, NamedAt space img f i name ordIdx →
    f.nFunctions.toNat ≤ ordIdx.toNat → answer (.name name) = 0
  inside : ∀ n : ProcName, n.Valid → answer n ≠ 0 →
    img.base ≤ answer n ∧ answer n < img.base + img.size ∧
      ¬ (img.base + dir.virtualAddress.toNat ≤ answer n ∧
        answer n < img.base + dir.virtualAddress.toNat + dir.size.toNat)

/-- The RVA is one that a lookup finds. -/
def Listed (space : Space) (img : MappedImage) (f : DirectoryFields) (rva : BitVec 32) : Prop :=
  (∃ i name ordIdx, NamedAt space img f i name ordIdx ∧ Reached space img f i ∧
    functionWord space img f ordIdx.toNat = some rva) ∨
  ∃ index < f.nFunctions.toNat, f.ordinalBase.toNat + index < 0x10000 ∧
    functionWord space img f index = some rva

/-- A directory that the two ways of looking up agree on. -/
structure InOrder (space : Space) (img : MappedImage) (dir : DataDirectory) (f : DirectoryFields) :
    Prop where
  /-- No name before an export that can be called by ordinal is unreadable. -/
  readable : ∀ i name ordIdx rva, NamedAt space img f i name ordIdx →
    f.ordinalBase.toNat + ordIdx.toNat < 0x10000 → ordIdx.toNat < f.nFunctions.toNat →
    functionWord space img f ordIdx.toNat = some rva → Callable img dir rva →
      Reached space img f i
  /-- No name leads beyond the function array to what can be called. -/
  within : ∀ i name ordIdx rva, NamedAt space img f i name ordIdx →
    f.nFunctions.toNat ≤ ordIdx.toNat → Reached space img f i →
    functionWord space img f ordIdx.toNat = some rva → ¬ Callable img dir rva
  /-- The end of the directory does not saturate before a function at the very last address. -/
  last : ¬ (img.size = 2 ^ 32 ∧ 2 ^ 32 ≤ dir.virtualAddress.toNat + dir.size.toNat ∧
    Listed space img f (BitVec.allOnes 32) ∧ Callable img dir (BitVec.allOnes 32))

theorem listed_of_procAddress (hp : Parsed space m dir f)
    (hdistinct : NamesDistinct space m.image f) {n : ProcName} (hvalid : n.Valid)
    (hne : m.procAddress n ≠ 0) :
    ∃ rva, Listed space m.image f rva ∧ Callable m.image dir rva ∧
      m.procAddress n = m.image.base + rva.toNat := by
  have hfrom : ∀ rva, m.procAddress n = exportAddr m rva → Listed space m.image f rva →
      ∃ rva, Listed space m.image f rva ∧ Callable m.image dir rva ∧
        m.procAddress n = m.image.base + rva.toNat := by
    intro rva heq hlisted
    have hcall : Callable m.image dir rva := by
      by_contra hnot
      rw [heq, exportAddr_of_not_callable hp hnot] at hne
      exact hne rfl
    exact ⟨rva, hlisted, hcall, heq.trans (exportAddr_of_callable hp hcall)⟩
  cases n with
  | name bytes =>
    have heq := procAddress_name_eq hp bytes
    cases hlookup : (nameList space m.image f).lookup (bytes.take maxNameLen) with
    | none =>
      rw [hlookup] at heq
      exact absurd heq hne
    | some rva =>
      rw [hlookup] at heq
      obtain ⟨i, ordIdx, hnamed, hreached, hword⟩ := (lookup_nameList hdistinct).mp hlookup
      exact hfrom rva heq (Or.inl ⟨i, _, ordIdx, hnamed, hreached, hword⟩)
  | ordinal n =>
    by_cases hbase : f.ordinalBase.toNat ≤ n
    · obtain ⟨index, rfl⟩ := Nat.exists_eq_add_of_le hbase
      have heq := procAddress_ordinal hp hvalid
      split_ifs at heq with hlt
      · cases hword : functionWord space m.image f index with
        | none =>
          rw [hword] at heq
          exact absurd heq hne
        | some rva =>
          rw [hword] at heq
          exact hfrom rva heq (Or.inr ⟨index, hlt, hvalid, hword⟩)
      · exact absurd heq hne
    · have hmod : (BitVec.ofNat 32 n).toNat = n := by
        rw [BitVec.toNat_ofNat]
        exact Nat.mod_eq_of_lt (Nat.lt_trans hvalid (by decide))
      have heq := procAddress_ordinal_eq hp n
      unfold ExportTable.functionRvaByOrdinal at heq
      simp only [hmod, if_neg hbase] at heq
      exact absurd heq hne

theorem procAddress_of_listed (hp : Parsed space m dir f)
    (hdistinct : NamesDistinct space m.image f) (hlisted : Listed space m.image f rva)
    (hcall : Callable m.image dir rva) :
    ∃ n : ProcName, n.Valid ∧ m.procAddress n = m.image.base + rva.toNat := by
  rw [← exportAddr_of_callable hp hcall]
  rcases hlisted with ⟨i, name, ordIdx, hnamed, hreached, hword⟩ | ⟨index, hlt, hvalid, hword⟩
  · exact ⟨.name name, trivial, procAddress_name hp hdistinct hnamed hreached hword⟩
  · refine ⟨.ordinal (f.ordinalBase.toNat + index), hvalid, ?_⟩
    rw [procAddress_ordinal hp hvalid, if_pos hlt, hword]

theorem callable_in_directory (hcall : Callable img dir rva) :
    (dir.virtualAddress.toNat ≤ rva.toNat ∧
      rva.toNat < dir.virtualAddress.toNat + dir.size.toNat) ↔
    rva = BitVec.allOnes 32 ∧ img.size = 2 ^ 32 ∧
      2 ^ 32 ≤ dir.virtualAddress.toNat + dir.size.toNat := by
  obtain ⟨-, hdir, hlt⟩ := hcall
  have hsize := img.size_le
  have hrva := rva.isLt
  have hva := dir.virtualAddress.isLt
  have hones : rva = BitVec.allOnes 32 ↔ rva.toNat = 2 ^ 32 - 1 := by
    rw [← BitVec.toNat_inj, BitVec.toNat_allOnes]
  unfold saturatingAdd at hdir
  rw [hones]
  split_ifs at hdir with hsum
  · rw [BitVec.toNat_add, Nat.mod_eq_of_lt hsum] at hdir
    omega
  · rw [BitVec.toNat_allOnes] at hdir
    omega

theorem procAddress_agree (hp : Parsed space m dir f) (hdistinct : NamesDistinct space m.image f)
    (hin : InOrder space m.image dir f) (h : NamedAt space m.image f i name ordIdx)
    (hvalid : f.ordinalBase.toNat + ordIdx.toNat < 0x10000) :
    m.procAddress (.name name) =
      m.procAddress (.ordinal (f.ordinalBase.toNat + ordIdx.toNat)) := by
  rw [procAddress_ordinal hp hvalid]
  cases hword : functionWord space m.image f ordIdx.toNat with
  | none =>
    have hname := procAddress_name_none hp hdistinct h
      (fun hread => by obtain ⟨-, rva, hrva⟩ := hread; rw [hword] at hrva; cases hrva)
    rw [hname, ite_self]
  | some rva =>
    by_cases hcall : Callable m.image dir rva
    · by_cases hlt : ordIdx.toNat < f.nFunctions.toNat
      · have hreached := hin.readable i name ordIdx rva h hvalid hlt hword hcall
        rw [if_pos hlt, procAddress_name hp hdistinct h hreached hword]
      · rw [if_neg hlt]
        apply procAddress_name_none hp hdistinct h
        intro hread
        exact hin.within i name ordIdx rva h (Nat.le_of_not_lt hlt) hread.1 hword hcall
    · have hzero := exportAddr_of_not_callable hp hcall
      have hname : m.procAddress (.name name) = 0 := by
        by_cases hreached : Reached space m.image f i
        · rw [procAddress_name hp hdistinct h hreached hword, hzero]
        · exact procAddress_name_none hp hdistinct h fun hread => hreached hread.1
      rw [hname]
      split_ifs
      · exact hzero.symm
      · rfl

theorem procAddress_lookupsAgree_iff (hp : Parsed space m dir f)
    (hdistinct : NamesDistinct space m.image f) (hbase : m.image.base ≠ 0) :
    LookupsAgree space m.image dir f m.procAddress ↔ InOrder space m.image dir f := by
  constructor
  · intro h
    constructor
    · intro i name ordIdx rva hnamed hvalid hlt hword hcall
      have heq := h.agree i name ordIdx hnamed hvalid
      rw [procAddress_ordinal hp hvalid, if_pos hlt, hword] at heq
      by_contra hnot
      rw [procAddress_name_none hp hdistinct hnamed fun hread => hnot hread.1] at heq
      dsimp only at heq
      rw [exportAddr_of_callable hp hcall] at heq
      omega
    · intro i name ordIdx rva hnamed hbeyond hreached hword hcall
      have hzero := h.beyond i name ordIdx hnamed hbeyond
      rw [procAddress_name hp hdistinct hnamed hreached hword,
        exportAddr_of_callable hp hcall] at hzero
      omega
    · intro hlast
      obtain ⟨hsize, hsum, hlisted, hcall⟩ := hlast
      obtain ⟨n, hvalid, heq⟩ := procAddress_of_listed hp hdistinct hlisted hcall
      have hinside := h.inside n hvalid (by rw [heq]; omega)
      have hdir := (callable_in_directory hcall).mpr ⟨rfl, hsize, hsum⟩
      rw [heq] at hinside
      apply hinside.2.2
      omega
  · intro h
    constructor
    · intro i name ordIdx hnamed hvalid
      exact procAddress_agree hp hdistinct h hnamed hvalid
    · intro i name ordIdx hnamed hbeyond
      by_cases hreached : Reached space m.image f i
      · cases hword : functionWord space m.image f ordIdx.toNat with
        | none =>
          apply procAddress_name_none hp hdistinct hnamed
          intro hread
          obtain ⟨-, rva, hrva⟩ := hread
          rw [hword] at hrva
          cases hrva
        | some rva =>
          rw [procAddress_name hp hdistinct hnamed hreached hword]
          exact exportAddr_of_not_callable hp (h.within i name ordIdx rva hnamed hbeyond hreached
            hword)
      · exact procAddress_name_none hp hdistinct hnamed fun hread => hreached hread.1
    · intro n hvalid hne
      obtain ⟨rva, hlisted, hcall, heq⟩ := listed_of_procAddress hp hdistinct hvalid hne
      have hlt := hcall.2.2
      rw [heq]
      refine ⟨Nat.le_add_right _ _, by omega, ?_⟩
      intro hdir
      obtain ⟨rfl, hsize, hsum⟩ := (callable_in_directory hcall).mp (by omega)
      exact h.last ⟨hsize, hsum, hlisted, hcall⟩

/-! ## `GetProcAddress` -/

/-- The handle is one of those that `GetProcAddress` takes for a DLL without a file. -/
def StandIn (h : Nat) : Prop := exeBase ≤ h ∧ h < exeBase + 0x10000

instance (h : Nat) : Decidable (StandIn h) := inferInstanceAs (Decidable (_ ∧ _))

theorem run_getProcAddress (host : Host) (callee : Call → Sys → Option (Reply × Sys))
    (l : Holdings) {s : Sys} (hreal : ¬ StandIn m.hModule)
    (hfind : s.modules.find? (fun m' => m'.hModule = m.hModule) = some m) (n : ProcName) :
    Attempt.run callee (getProcAddress host m.hModule n) (l, s) =
      some (.ok (if m.hModule = 0 then 0 else m.procAddress n), l, s) := by
  have hout : ¬ (exeBase ≤ m.hModule ∧ m.hModule < exeBase + 0x10000) := hreal
  unfold getProcAddress
  by_cases hzero : m.hModule = 0
  · rw [if_pos hzero, if_pos hzero]
    rfl
  · rw [if_neg hzero, if_neg hzero, if_neg hout, Attempt.run_atomically]
    simp only [hfind]

/-- Lookups by name and by ordinal agree, and stay where they should, exactly if the directory is in
    order. -/
theorem lookups_agree_iff (host : Host) (callee : Call → Sys → Option (Reply × Sys))
    (l : Holdings) (s : Sys) (m : LoadedModule) (space : Space) (dir : DataDirectory)
    (f : DirectoryFields) (hreal : ¬ StandIn m.hModule)
    (hfind : s.modules.find? (fun m' => m'.hModule = m.hModule) = some m)
    (htable : m.exports = parseExportTable space m.image)
    (hdir : locateExportDir space m.image = some dir)
    (hf : directoryFields space m.image dir = some f)
    (hdistinct : NamesDistinct space m.image f) :
    (∃ answer : ProcName → Nat, (∀ n, Attempt.run callee (getProcAddress host m.hModule n) (l, s) =
        some (.ok (answer n), l, s)) ∧ LookupsAgree space m.image dir f answer) ↔
      m.hModule = 0 ∨ InOrder space m.image dir f := by
  have hp := parsed_of_parse htable hdir hf
  have hrun := run_getProcAddress host callee l hreal hfind
  have hsame : ∀ answer : ProcName → Nat,
      (∀ n, Attempt.run callee (getProcAddress host m.hModule n) (l, s) =
        some (.ok (answer n), l, s)) →
      answer = fun n => if m.hModule = 0 then 0 else m.procAddress n := by
    intro answer hanswer
    funext n
    have heq := (hanswer n).symm.trans (hrun n)
    simpa using heq
  by_cases hzero : m.hModule = 0
  · refine iff_of_true ⟨_, hrun, ?_⟩ (Or.inl hzero)
    simp only [hzero, if_true]
    exact ⟨fun _ _ _ _ _ => rfl, fun _ _ _ _ _ => rfl, fun _ _ hne => absurd rfl hne⟩
  · rw [or_iff_right hzero, ← procAddress_lookupsAgree_iff hp hdistinct hzero]
    have hanswer : (fun n => if m.hModule = 0 then 0 else m.procAddress n) = m.procAddress := by
      funext n
      exact if_neg hzero
    constructor
    · intro h
      obtain ⟨answer, hans, hagree⟩ := h
      rwa [hsame answer hans, hanswer] at hagree
    · intro h
      refine ⟨_, hrun, ?_⟩
      rwa [hanswer]

/-! ## A name past the function array -/

/-- One page at 0x10000. -/
def onePage : MappedImage := ⟨0x10, 0x1000, 0x180000000, tailHeader.size_le⟩

/-- An export directory at RVA 0x100, with its function array at 0x200 and one name, "a", whose
    index is 1. -/
def exportSpace (nFunctions : Byte) : Space :=
  [(0, [0x4D, 0x5A]), (0x3C, [0x40]), (0x58, [0x0B, 2]), (0xC8, [0, 1, 0, 0, 0x28]),
    (0x110, [1]), (0x114, [nFunctions]), (0x118, [1]), (0x11C, [0, 2]), (0x120, [0x10, 2]),
    (0x124, [0x20, 2]), (0x200, [0, 3, 0, 0, 4, 3]), (0x210, [0x30, 2]), (0x220, [1]),
    (0x230, [0x61])].foldl (fun space (p : Nat × List Byte) =>
      storeBytes space (0x10000 + p.1) p.2)
    (mapZero (fun _ => none) 0x10 1 .readWrite)

def exportModule (nFunctions : Byte) : LoadedModule :=
  ⟨"a.dll", parseExportTable (exportSpace nFunctions) onePage, onePage, ⟨0x100, 0x101⟩,
    ⟨⟨0x300, 8⟩, 0, true, []⟩⟩

def exportFields (nFunctions : BitVec 32) : DirectoryFields :=
  ⟨1, nFunctions, 1, 0x200, 0x210, 0x220⟩

/-- The module is registered, and nothing else. -/
def exportSys (nFunctions : Byte) : Sys := ⟨exportSpace nFunctions, [exportModule nFunctions], 0, fun _ => none⟩

/-- There are one or two functions. -/
def FewFunctions (nFunctions : Byte) (word : BitVec 32) : Prop :=
  nFunctions = 1 ∧ word = 1 ∨ nFunctions = 2 ∧ word = 2

variable {w : BitVec 32}

theorem exportSpace_read {n : Byte} (hn : FewFunctions n w) :
    locateExportDir (exportSpace n) onePage = some ⟨0x100, 0x28⟩ ∧
    directoryFields (exportSpace n) onePage ⟨0x100, 0x28⟩ = some (exportFields w) ∧
    readU32 (exportSpace n) onePage 0x210 = some 0x230 ∧
    readBytesNul (exportSpace n) onePage 0x230 = some [0x61] ∧
    readU16 (exportSpace n) onePage 0x220 = some 1 := by
  rcases hn with ⟨rfl, rfl⟩ | ⟨rfl, rfl⟩
  · decide
  · decide

/-- The one entry that there is. -/
theorem exportSpace_named {n : Byte} (hn : FewFunctions n w) :
    NamedAt (exportSpace n) onePage (exportFields w) i name ordIdx ↔
      i = 0 ∧ name = [0x61] ∧ ordIdx = 1 := by
  obtain ⟨-, -, hword, hbytes, hord⟩ := exportSpace_read hn
  constructor
  · intro h
    obtain rfl : i = 0 := Nat.lt_one_iff.mp h.lt
    obtain ⟨nameRva, hnameRva, hname⟩ := h.name
    obtain rfl : (0x230 : BitVec 32) = nameRva := Option.some.inj (hword.symm.trans hnameRva)
    exact ⟨rfl, Option.some.inj (hname.symm.trans hbytes),
      Option.some.inj (h.ordinal.symm.trans hord)⟩
  · rintro ⟨rfl, rfl, rfl⟩
    exact ⟨Nat.zero_lt_one, ⟨0x230, hword, hbytes⟩, hord⟩

theorem exportSpace_distinct {n : Byte} (hn : FewFunctions n w) :
    NamesDistinct (exportSpace n) onePage (exportFields w) := by
  intro i j name ordIdx ordIdx' h h'
  rw [((exportSpace_named hn).mp h).1, ((exportSpace_named hn).mp h').1]

theorem exportModule_find (nFunctions : Byte) :
    (exportSys nFunctions).modules.find?
      (fun m' => m'.hModule = (exportModule nFunctions).hModule) = some (exportModule nFunctions) :=
  List.find?_cons_of_pos (decide_eq_true rfl)

theorem exportModule_hModule (nFunctions : Byte) :
    (exportModule nFunctions).hModule = 0x10000 := by
  show 0x10 * pageSize = 0x10000
  decide

theorem exportModule_real (nFunctions : Byte) : ¬ StandIn (exportModule nFunctions).hModule := by
  rw [exportModule_hModule]
  decide

/-- With one function only, the name leads to the word behind the array. -/
theorem strayName_disagrees :
    locateExportDir (exportSpace 1) onePage = some ⟨0x100, 0x28⟩ ∧
    directoryFields (exportSpace 1) onePage ⟨0x100, 0x28⟩ = some (exportFields 1) ∧
    NamesDistinct (exportSpace 1) onePage (exportFields 1) ∧
    ¬ ∃ answer : ProcName → Nat,
      (∀ n, Attempt.run (fun _ _ => none)
        (getProcAddress raceHost (exportModule 1).hModule n) (.none, exportSys 1) =
          some (.ok (answer n), .none, exportSys 1)) ∧
      LookupsAgree (exportSpace 1) onePage ⟨0x100, 0x28⟩ (exportFields 1) answer := by
  have hn : FewFunctions 1 1 := Or.inl ⟨rfl, rfl⟩
  obtain ⟨hdir, hf, -⟩ := exportSpace_read hn
  refine ⟨hdir, hf, exportSpace_distinct hn, ?_⟩
  intro h
  obtain ⟨answer, hans, hagree⟩ := h
  have hrun := hans (.name [0x61])
  rw [run_getProcAddress raceHost _ _ (exportModule_real 1) (exportModule_find 1)] at hrun
  have hzero := hagree.beyond 0 [0x61] 1 ((exportSpace_named hn).mpr ⟨rfl, rfl, rfl⟩) (by decide)
  have hprec : (if (exportModule 1).hModule = 0 then 0
      else (exportModule 1).procAddress (.name [0x61])) = 0x10304 := by
    decide
  rw [hzero, hprec] at hrun
  cases hrun

/-- With two it is an export. -/
theorem lookups_agree_iff_twoFunctions :
    ∃ answer : ProcName → Nat,
      (∀ n, Attempt.run (fun _ _ => none)
        (getProcAddress raceHost (exportModule 2).hModule n) (.none, exportSys 2) =
          some (.ok (answer n), .none, exportSys 2)) ∧
      LookupsAgree (exportSpace 2) onePage ⟨0x100, 0x28⟩ (exportFields 2) answer := by
  have hn : FewFunctions 2 2 := Or.inr ⟨rfl, rfl⟩
  obtain ⟨hdir, hf, -⟩ := exportSpace_read hn
  apply (lookups_agree_iff raceHost (fun _ _ => none) .none (exportSys 2) (exportModule 2)
    (exportSpace 2) ⟨0x100, 0x28⟩ (exportFields 2) (exportModule_real 2) (exportModule_find 2) rfl
    hdir hf (exportSpace_distinct hn)).mpr
  right
  constructor
  · intro i name ordIdx rva hnamed _ _ _ _ j hj
    rw [((exportSpace_named hn).mp hnamed).1] at hj
    exact absurd hj (Nat.not_lt_zero j)
  · intro i name ordIdx rva hnamed hbeyond
    rw [((exportSpace_named hn).mp hnamed).2.2] at hbeyond
    exact absurd hbeyond (by decide)
  · intro hlast
    exact absurd hlast.1 (by decide)

end WinCompat.Loader
