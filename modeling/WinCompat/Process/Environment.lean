import WinCompat.File.Paths
import WinCompat.Lib.Keyed

/-!
# The environment

`win32-kernel32/src/env.rs`: `get_environment_variable_w`, `set_environment_variable_w` and
`get_environment_strings_w`, over `std::env::var`, `set_var`, `remove_var` and `vars`.

What is kept is the environment of the host, whose names and values are host strings and whose
names are compared as they are. So a name or a value is kept as the text that it decodes to, and
the environment is the map of what was set last to a text (`environment_is_map`).
-/

namespace WinCompat.Process.Environment

open Lib Lib.Utf16 File.Paths

/-! ## The environment of the host -/

/-- A string of the host: the text that it is, or other bytes. -/
inductive OsString
  | unicode (t : Text)
  | other (bytes : List UInt8)
  deriving DecidableEq

/-- `to_str` -/
def OsString.toStr : OsString → Option Text
  | unicode t => some t
  | other _ => none

/-- A name that the host can have a variable under. -/
structure Named (key : Text) : Prop where
  ne_nil : key ≠ []
  no_equals : '=' ∉ key
  no_nul : '\x00' ∉ key

instance (key : Text) : Decidable (Named key) :=
  decidable_of_iff (key ≠ [] ∧ '=' ∉ key ∧ '\x00' ∉ key)
    ⟨fun h => ⟨h.1, h.2.1, h.2.2⟩, fun h => ⟨h.1, h.2, h.3⟩⟩

structure Environ where
  vars : Keyed.Store OsString OsString
  named : ∀ key, OsString.unicode key ∈ vars → Named key
  no_nul : ∀ name value, vars.lookup name = some (.unicode value) → '\x00' ∉ value

namespace Environ

/-- `std::env::var` -/
def var (e : Environ) (key : Text) : Option Text :=
  if '=' ∈ key ∨ '\x00' ∈ key then none
  else (e.vars.lookup (.unicode key)).bind OsString.toStr

/-- `std::env::set_var`, which panics on a name that the host does not take. -/
def setVar (e : Environ) (key value : Text) : Option Environ :=
  if h : Named key ∧ '\x00' ∉ value then
    some {
      vars := e.vars.insert (.unicode key) (.unicode value)
      named := by
        intro key' hkey'
        rcases (AList.mem_insert e.vars).mp hkey' with heq | hmem
        · rw [OsString.unicode.inj heq]
          exact h.1
        · exact e.named key' hmem
      no_nul := by
        intro name value' hvalue'
        by_cases hname : name = .unicode key
        · rw [hname, AList.lookup_insert] at hvalue'
          rw [← OsString.unicode.inj (Option.some.inj hvalue')]
          exact h.2
        · rw [AList.lookup_insert_ne hname] at hvalue'
          exact e.no_nul name value' hvalue' }
  else none

/-- `std::env::remove_var`, which panics as `set_var` does. -/
def removeVar (e : Environ) (key : Text) : Option Environ :=
  if Named key then
    some {
      vars := e.vars.erase (.unicode key)
      named := fun key' hkey' => e.named key' (AList.mem_erase.mp hkey').2
      no_nul := by
        intro name value hvalue
        by_cases hname : name = .unicode key
        · rw [hname, AList.lookup_erase] at hvalue
          exact absurd hvalue (by simp)
        · rw [AList.lookup_erase_ne hname] at hvalue
          exact e.no_nul name value hvalue }
  else none

end Environ

/-! ## The calls -/

/-- What is written to the buffer, the result, and the last error where one is set. -/
structure Got where
  written : List CodeUnit
  result : BitVec 32
  lastError : Option (BitVec 32)
  deriving DecidableEq

/-- `get_environment_variable_w` -/
def getEnvironmentVariableW (e : Environ) (name : WStr) (buffer : Bool) (nSize : BitVec 32) : Got :=
  let nameStr := utf16ToString name
  if nameStr = [] then ⟨[], 0, some 203⟩
  else
    match e.var nameStr with
    | none => ⟨[], 0, some 203⟩
    | some value =>
        let units := encode value
        let need := BitVec.ofNat 32 units.length + 1
        if buffer = false ∨ nSize = 0 then ⟨[], need, none⟩
        else if nSize ≤ BitVec.ofNat 32 units.length then ⟨[], need, some 122⟩
        else ⟨units ++ [0], BitVec.ofNat 32 units.length, none⟩

/-- `set_environment_variable_w`; `none` is a panic of the host's. -/
def setEnvironmentVariableW (e : Environ) (name value : WStr) : Option (Bool × Environ) :=
  let nameStr := utf16ToString name
  if nameStr = [] then some (false, e)
  else if value = none then (e.removeVar nameStr).map fun e' => (true, e')
  else (e.setVar nameStr (utf16ToString value)).map fun e' => (true, e')

/-- A variable in the block. -/
def entry (v : Text × Text) : List CodeUnit := encode v.1 ++ 0x3D :: encode v.2

/-- A variable of `std::env::vars`, which panics on what is no text. -/
def textOf (v : Σ _ : OsString, OsString) : Option (Text × Text) := do
  let name ← v.1.toStr
  let value ← v.2.toStr
  return (name, value)

/-- `get_environment_strings_w`, where the host lists its variables in this order. -/
def getEnvironmentStringsW (vars : List (Σ _ : OsString, OsString)) : Option (List CodeUnit) :=
  (vars.mapM textOf).map fun texts => texts.flatMap (fun v => entry v ++ [0]) ++ [0]

inductive Call
  | set (name value : WStr)
  | get (name : WStr) (buffer : Bool) (nSize : BitVec 32)

/-- The environment after some calls. -/
def run (e : Environ) : List Call → Option Environ
  | [] => some e
  | .set name value :: calls =>
      (setEnvironmentVariableW e name value).bind fun r => run r.2 calls
  | .get _ _ _ :: calls => run e calls

/-! ## The map -/

/-- The units that were set last under each name. -/
abbrev Map := Text → Option (List CodeUnit)

/-- Units that are read up to their NUL, and come back with U+FFFD for half of a pair. -/
def kept (value : List CodeUnit) : List CodeUnit := repair (value.takeWhile (· ≠ 0))

/-- What some calls make of the map. -/
def after (m : Map) : List Call → Map
  | [] => m
  | .set name value :: calls =>
      after (if utf16ToString name = [] then m
        else Function.update m (utf16ToString name) (value.map kept)) calls
  | .get _ _ _ :: calls => after m calls

/-- The map that an environment is at first. -/
def Environ.map (e : Environ) : Map := fun name =>
  ((e.vars.lookup (.unicode name)).bind OsString.toStr).map encode

/-- The size protocol: a name that is not found; the value and its NUL where there is room; and
    otherwise the room that is needed. -/
inductive Follows (buffer : Bool) (nSize : BitVec 32) : Option (List CodeUnit) → Got → Prop
  | missing : Follows buffer nSize none ⟨[], 0, some 203⟩
  | written {units : List CodeUnit} (hbuf : buffer = true) (hroom : units.length < nSize.toNat) :
      Follows buffer nSize (some units) ⟨units ++ [0], BitVec.ofNat 32 units.length, none⟩
  | asked {units : List CodeUnit} (hask : buffer = false ∨ nSize = 0) :
      Follows buffer nSize (some units) ⟨[], BitVec.ofNat 32 (units.length + 1), none⟩
  | small {units : List CodeUnit} (hbuf : buffer = true) (hsize : nSize ≠ 0)
      (hroom : nSize.toNat ≤ units.length) :
      Follows buffer nSize (some units) ⟨[], BitVec.ofNat 32 (units.length + 1), some 122⟩

/-! ## Reading the block -/

/-- An entry, split at its first `=` after the first unit. -/
def splitEntry : List CodeUnit → List CodeUnit × List CodeUnit
  | [] => ([], [])
  | u :: rest => (u :: rest.takeWhile (· ≠ 0x3D), (rest.dropWhile (· ≠ 0x3D)).drop 1)

/-- The entries of a block, up to the one that is empty. -/
def readBlock (block : List CodeUnit) : List (List CodeUnit × List CodeUnit) :=
  ((block.splitOn 0).takeWhile (· ≠ [])).map splitEntry

/-! ## Lemmas -/

variable {e e' : Environ} {key value : Text} {name : WStr} {us vs : List CodeUnit}

theorem nul_not_mem (name : WStr) : '\x00' ∉ utf16ToString name := by
  cases name with
  | none => simp [utf16ToString]
  | some units =>
    intro h
    have hunit : charOf 0 = '\x00' := by decide
    rw [← hunit] at h
    exact zero_not_mem_takeWhile (charOf_mem_decodeLossy (by decide) (by decide) h)

theorem encode_utf16ToString (value : List CodeUnit) :
    encode (utf16ToString (some value)) = kept value := encode_decodeLossy _

theorem var_eq (e : Environ) (key : Text) : (e.var key).map encode = e.map key := by
  unfold Environ.var Environ.map
  by_cases h : '=' ∈ key ∨ '\x00' ∈ key
  · have hnone : e.vars.lookup (.unicode key) = none := by
      rw [AList.lookup_eq_none]
      intro hmem
      have hnamed := e.named key hmem
      exact h.elim hnamed.no_equals hnamed.no_nul
    rw [if_pos h, hnone]
    rfl
  · rw [if_neg h]

theorem map_nil (e : Environ) : e.map [] = none := by
  have hnone : e.vars.lookup (.unicode []) = none :=
    AList.lookup_eq_none.mpr fun hmem => (e.named [] hmem).ne_nil rfl
  rw [Environ.map, hnone]
  rfl

theorem map_setVar (h : e.setVar key value = some e') :
    e'.map = Function.update e.map key (some (encode value)) := by
  unfold Environ.setVar at h
  split at h
  · obtain rfl := Option.some.inj h
    funext name
    unfold Environ.map
    by_cases hname : name = key
    · rw [hname, Function.update_self, AList.lookup_insert]
      rfl
    · have hne : OsString.unicode name ≠ .unicode key :=
        fun heq => hname (OsString.unicode.inj heq)
      rw [Function.update_of_ne hname, AList.lookup_insert_ne hne]
  · exact absurd h (by simp)

theorem map_removeVar (h : e.removeVar key = some e') :
    e'.map = Function.update e.map key none := by
  unfold Environ.removeVar at h
  split at h
  · obtain rfl := Option.some.inj h
    funext name
    unfold Environ.map
    by_cases hname : name = key
    · rw [hname, Function.update_self, AList.lookup_erase]
      rfl
    · have hne : OsString.unicode name ≠ .unicode key :=
        fun heq => hname (OsString.unicode.inj heq)
      rw [Function.update_of_ne hname, AList.lookup_erase_ne hne]
  · exact absurd h (by simp)

/-! ## One call -/

theorem setEnvironmentVariableW_some (e : Environ) (value : WStr) (hname : utf16ToString name ≠ [])
    (hequals : '=' ∉ utf16ToString name) :
    ∃ e', setEnvironmentVariableW e name value = some (true, e') ∧
      e'.map = Function.update e.map (utf16ToString name) (value.map kept) := by
  have hnamed : Named (utf16ToString name) := ⟨hname, hequals, nul_not_mem name⟩
  unfold setEnvironmentVariableW
  dsimp only
  rw [if_neg hname]
  cases value with
  | none =>
    obtain ⟨e', he'⟩ : ∃ e', e.removeVar (utf16ToString name) = some e' := ⟨_, if_pos hnamed⟩
    refine ⟨e', ?_, map_removeVar he'⟩
    rw [if_pos rfl, he', Option.map_some]
  | some value =>
    obtain ⟨e', he'⟩ : ∃ e', e.setVar (utf16ToString name) (utf16ToString (some value)) = some e' :=
      ⟨_, dif_pos ⟨hnamed, nul_not_mem (some value)⟩⟩
    refine ⟨e', ?_, ?_⟩
    · rw [if_neg (by simp), he', Option.map_some]
    · rw [map_setVar he', encode_utf16ToString, Option.map_some]

theorem getEnvironmentVariableW_follows (e : Environ) (name : WStr) (buffer : Bool)
    (nSize : BitVec 32) (h : ∀ units ∈ e.map (utf16ToString name), units.length + 1 < 2 ^ 32) :
    Follows buffer nSize (e.map (utf16ToString name))
      (getEnvironmentVariableW e name buffer nSize) := by
  unfold getEnvironmentVariableW
  dsimp only
  by_cases hname : utf16ToString name = []
  · rw [if_pos hname, hname, map_nil]
    exact .missing
  · rw [if_neg hname]
    rw [← var_eq] at h ⊢
    cases hvalue : e.var (utf16ToString name) with
    | none => exact .missing
    | some value =>
      rw [hvalue] at h
      have hlen : (BitVec.ofNat 32 (encode value).length).toNat = (encode value).length := by
        rw [BitVec.toNat_ofNat]
        exact Nat.mod_eq_of_lt (Nat.lt_of_succ_lt (h _ rfl))
      have hneed : BitVec.ofNat 32 (encode value).length + 1 =
          BitVec.ofNat 32 ((encode value).length + 1) := (BitVec.ofNat_add _ _).symm
      have hle : nSize ≤ BitVec.ofNat 32 (encode value).length ↔
          nSize.toNat ≤ (encode value).length := by rw [BitVec.le_def, hlen]
      dsimp only [Option.map_some]
      rw [hneed]
      by_cases hask : buffer = false ∨ nSize = 0
      · rw [if_pos hask]
        exact .asked hask
      · obtain ⟨hbuf, hsize⟩ := not_or.mp hask
        rw [if_neg hask]
        by_cases hroom : nSize.toNat ≤ (encode value).length
        · rw [if_pos (hle.mpr hroom)]
          exact .small (by simpa using hbuf) hsize hroom
        · rw [if_neg fun hsmall => hroom (hle.mp hsmall)]
          exact .written (by simpa using hbuf) (Nat.not_le.mp hroom)

/-! ## Any number of calls -/

/-- No call sets a name with an `=` in it. -/
def Settable (calls : List Call) : Prop :=
  ∀ name value, Call.set name value ∈ calls → '=' ∉ utf16ToString name

theorem run_map {calls : List Call} (h : Settable calls) : ∀ e : Environ,
    ∃ e', run e calls = some e' ∧ e'.map = after e.map calls := by
  induction calls with
  | nil => exact fun e => ⟨e, rfl, rfl⟩
  | cons c calls ih =>
    have hrest : Settable calls := fun name value hmem => h name value (List.mem_cons_of_mem c hmem)
    intro e
    cases c with
    | get name buffer nSize => exact ih hrest e
    | set name value =>
      by_cases hname : utf16ToString name = []
      · obtain ⟨e', hrun, hmap⟩ := ih hrest e
        refine ⟨e', ?_, ?_⟩
        · rw [run, setEnvironmentVariableW, if_pos hname]
          exact hrun
        · rw [after, if_pos hname, hmap]
      · obtain ⟨e₁, hset, hmap₁⟩ := setEnvironmentVariableW_some e value hname
          (h name value List.mem_cons_self)
        obtain ⟨e', hrun, hmap⟩ := ih hrest e₁
        refine ⟨e', ?_, ?_⟩
        · rw [run, hset]
          exact hrun
        · rw [after, if_neg hname, hmap, hmap₁]

/-- All that the host has is text. -/
def Environ.Unicode (e : Environ) : Prop := ∀ v ∈ e.vars.entries, (textOf v).isSome

theorem Environ.Unicode.set (h : e.Unicode) {name value : WStr} {b : Bool}
    (hset : setEnvironmentVariableW e name value = some (b, e')) : e'.Unicode := by
  unfold setEnvironmentVariableW at hset
  dsimp only at hset
  split at hset
  · obtain ⟨-, rfl⟩ := Prod.mk.inj (Option.some.inj hset)
    exact h
  · split at hset
    · obtain ⟨_, hremove, heq⟩ := Option.map_eq_some_iff.mp hset
      obtain ⟨-, rfl⟩ := Prod.mk.inj heq
      unfold Environ.removeVar at hremove
      split at hremove
      · obtain rfl := Option.some.inj hremove
        exact fun v hv => h v (List.kerase_sublist _ _ |>.subset hv)
      · exact absurd hremove (by simp)
    · obtain ⟨_, hinsert, heq⟩ := Option.map_eq_some_iff.mp hset
      obtain ⟨-, rfl⟩ := Prod.mk.inj heq
      unfold Environ.setVar at hinsert
      split at hinsert
      · obtain rfl := Option.some.inj hinsert
        intro v hv
        rcases List.mem_cons.mp hv with rfl | hmem
        · rfl
        · exact h v (List.kerase_sublist _ _ |>.subset hmem)
      · exact absurd hinsert (by simp)

theorem Environ.Unicode.run {calls : List Call} : ∀ {e : Environ}, e.Unicode →
    run e calls = some e' → e'.Unicode := by
  induction calls with
  | nil =>
    intro e h hrun
    rwa [← Option.some.inj hrun]
  | cons c calls ih =>
    intro e h hrun
    cases c with
    | get name buffer nSize => exact ih h hrun
    | set name value =>
      obtain ⟨⟨_, e₁⟩, hset, hrest⟩ := Option.bind_eq_some_iff.mp hrun
      exact ih (h.set hset) hrest

/-! ## The block -/

theorem textOf_eq_some {v : Σ _ : OsString, OsString} {t : Text × Text} :
    textOf v = some t ↔ v = ⟨.unicode t.1, .unicode t.2⟩ := by
  obtain ⟨name, value⟩ := v
  obtain ⟨n, u⟩ := t
  cases name <;> cases value <;> simp [textOf, OsString.toStr]

/-- The variables of the host that are these texts. -/
def varsOf (texts : List (Text × Text)) : List (Σ _ : OsString, OsString) :=
  texts.map fun t => ⟨.unicode t.1, .unicode t.2⟩

theorem mapM_textOf {vars : List (Σ _ : OsString, OsString)} (h : ∀ v ∈ vars, (textOf v).isSome) :
    ∃ texts, vars.mapM textOf = some texts ∧ vars = varsOf texts := by
  induction vars with
  | nil => exact ⟨[], rfl, rfl⟩
  | cons v vars ih =>
    rw [List.forall_mem_cons] at h
    obtain ⟨t, ht⟩ := Option.isSome_iff_exists.mp h.1
    obtain ⟨texts, htexts, hvars⟩ := ih h.2
    refine ⟨t :: texts, ?_, ?_⟩
    · rw [List.mapM_cons, ht, htexts]
      rfl
    · rw [varsOf, List.map_cons, ← textOf_eq_some.mp ht]
      exact congrArg _ hvars

theorem splitEntry_append (hname : us ≠ []) (h : (0x3D : CodeUnit) ∉ us) :
    splitEntry (us ++ 0x3D :: vs) = (us, vs) := by
  cases us with
  | nil => exact absurd rfl hname
  | cons u us =>
    have hrest : ∀ w ∈ us, decide (w ≠ 0x3D) = true := by
      intro w hw
      exact decide_eq_true fun heq => h (heq ▸ List.mem_cons_of_mem u hw)
    rw [List.cons_append, splitEntry, List.takeWhile_append_of_pos hrest,
      List.dropWhile_append_of_pos hrest]
    simp

theorem readBlock_flatMap {entries : List (List CodeUnit)}
    (h : ∀ l ∈ entries, l ≠ [] ∧ 0 ∉ l) :
    readBlock (entries.flatMap (fun l => l ++ [0]) ++ [0]) = entries.map splitEntry := by
  have hsplit : (entries.flatMap (fun l => l ++ [0]) ++ [0]).splitOn 0 = entries ++ [[], []] := by
    induction entries with
    | nil => rfl
    | cons l entries ih =>
      rw [List.forall_mem_cons] at h
      rw [List.flatMap_cons, List.append_assoc, List.append_assoc, List.singleton_append,
        List.splitOn_append_cons_self, List.splitOn_eq_singleton h.1.2, ih h.2]
      rfl
  have hkeep : ∀ l ∈ entries, decide (l ≠ []) = true := fun l hl => decide_eq_true (h l hl).1
  rw [readBlock, hsplit, List.takeWhile_append_of_pos hkeep]
  simp

theorem encode_ne_nil {t : Text} (h : t ≠ []) : encode t ≠ [] := by
  intro hnil
  apply h
  rw [← decodeLossy_encode t, hnil]
  rfl

theorem splitEntry_entry {v : Text × Text} (h : Named v.1) :
    splitEntry (entry v) = (encode v.1, encode v.2) := by
  have hequals : (0x3D : CodeUnit) ∉ encode v.1 := by
    intro hmem
    have hchar := charOf_mem_of_mem_encode (by decide) hmem
    rw [show charOf 0x3D = '=' by decide] at hchar
    exact h.no_equals hchar
  exact splitEntry_append (encode_ne_nil h.ne_nil) hequals

theorem readBlock_texts {texts : List (Text × Text)}
    (h : ∀ v ∈ texts, Named v.1 ∧ '\x00' ∉ v.2) :
    readBlock (texts.flatMap (fun v => entry v ++ [0]) ++ [0]) =
      texts.map fun v => (encode v.1, encode v.2) := by
  have hclean : ∀ l ∈ texts.map entry, l ≠ [] ∧ 0 ∉ l := by
    intro l hl
    obtain ⟨v, hv, rfl⟩ := List.mem_map.mp hl
    refine ⟨by simp [entry], ?_⟩
    intro hmem
    rcases List.mem_append.mp hmem with hmem | hmem
    · exact zero_not_mem_encode (h v hv).1.no_nul hmem
    · rcases List.mem_cons.mp hmem with heq | hmem
      · exact absurd heq (by decide)
      · exact zero_not_mem_encode (h v hv).2 hmem
  have hflat : texts.flatMap (fun v => entry v ++ [0]) =
      (texts.map entry).flatMap fun l => l ++ [0] := by rw [List.flatMap_map]
  rw [hflat, readBlock_flatMap hclean, List.map_map]
  exact List.map_congr_left fun v hv => splitEntry_entry (h v hv).1

section Listed

variable {texts : List (Text × Text)} (h : (varsOf texts).Perm e.vars.entries)

include h

theorem mem_texts_iff (t : Text × Text) :
    t ∈ texts ↔ e.vars.lookup (.unicode t.1) = some (.unicode t.2) := by
  have hinj : Function.Injective fun t : Text × Text =>
      (⟨.unicode t.1, .unicode t.2⟩ : Σ _ : OsString, OsString) := by
    intro t t' heq
    simp only [Sigma.mk.injEq, heq_eq_eq, OsString.unicode.injEq] at heq
    exact Prod.ext heq.1 heq.2
  rw [← List.mem_map_of_injective hinj]
  exact h.mem_iff.trans (List.mem_dlookup_iff e.vars.nodupKeys).symm

theorem map_eq_some_iff (key : Text) (units : List CodeUnit) :
    e.map key = some units ↔ ∃ value, (key, value) ∈ texts ∧ units = encode value := by
  rw [Environ.map]
  constructor
  · intro hunits
    obtain ⟨value, hvalue, rfl⟩ := Option.map_eq_some_iff.mp hunits
    obtain ⟨os, hos, hstr⟩ := Option.bind_eq_some_iff.mp hvalue
    refine ⟨value, (mem_texts_iff h (key, value)).mpr ?_, rfl⟩
    cases os with
    | unicode t => rw [hos, Option.some.inj hstr]
    | other bytes => exact absurd hstr (by simp [OsString.toStr])
  · rintro ⟨value, hmem, rfl⟩
    rw [(mem_texts_iff h (key, value)).mp hmem]
    rfl

theorem named_texts : ∀ v ∈ texts, Named v.1 ∧ '\x00' ∉ v.2 := by
  intro v hv
  have hfound := (mem_texts_iff h v).mp hv
  refine ⟨e.named v.1 ?_, e.no_nul _ v.2 hfound⟩
  rw [← AList.lookup_isSome, hfound]
  rfl

theorem nodup_texts : (texts.map Prod.fst).Nodup := by
  have hkeys : ((varsOf texts).map Sigma.fst).Nodup := by
    rw [(h.map Sigma.fst).nodup_iff]
    exact e.vars.nodupKeys
  have hnames : (varsOf texts).map Sigma.fst = (texts.map Prod.fst).map OsString.unicode := by
    rw [varsOf, List.map_map, List.map_map]
    rfl
  rw [hnames] at hkeys
  exact hkeys.of_map

end Listed

theorem block_spec (h : e.Unicode) {vars : List (Σ _ : OsString, OsString)}
    (hvars : vars.Perm e.vars.entries) : ∃ block, getEnvironmentStringsW vars = some block ∧
      ((readBlock block).map Prod.fst).Nodup ∧
      (∀ name units, (name, units) ∈ readBlock block ↔
        ∃ key, name = encode key ∧ e.map key = some units) ∧
      [0] <:+ block ∧ ((∃ key units, e.map key = some units) → [0, 0] <:+ block) := by
  obtain ⟨texts, hmapM, rfl⟩ := mapM_textOf fun v hv => h v (hvars.mem_iff.mp hv)
  refine ⟨_, congrArg _ hmapM, ?_, ?_, ?_, ?_⟩
  · have hread : (texts.map fun v => (encode v.1, encode v.2)).map Prod.fst =
        (texts.map Prod.fst).map encode := by
      rw [List.map_map, List.map_map]
      rfl
    rw [readBlock_texts (named_texts hvars), hread]
    exact (nodup_texts hvars).map fun _ _ => encode_injective
  · intro name units
    simp only [readBlock_texts (named_texts hvars), List.mem_map, Prod.mk.injEq,
      map_eq_some_iff hvars]
    constructor
    · rintro ⟨v, hv, rfl, rfl⟩
      exact ⟨v.1, rfl, v.2, hv, rfl⟩
    · rintro ⟨key, rfl, value, hmem, rfl⟩
      exact ⟨(key, value), hmem, rfl, rfl⟩
  · exact List.suffix_append _ _
  · rintro ⟨key, units, hunits⟩
    obtain ⟨value, hmem, -⟩ := (map_eq_some_iff hvars key units).mp hunits
    rcases List.eq_nil_or_concat texts with hnil | ⟨front, last, hlast⟩
    · exact absurd hmem (by simp [hnil])
    · refine ⟨front.flatMap (fun v => entry v ++ [0]) ++ entry last, ?_⟩
      simp [hlast]

/-! ## The environment is a map -/

/-- After any calls, as long as none sets a name with an `=` in it, every getter answers from the
    map that the calls have made of the inherited one. -/
theorem environment_is_map (e : Environ) (calls : List Call) (h : Settable calls) :
    ∃ e', run e calls = some e' ∧
      -- a get follows the size protocol, with the units that were set last
      (∀ name buffer nSize,
        (∀ units ∈ after e.map calls (utf16ToString name), units.length + 1 < 2 ^ 32) →
        Follows buffer nSize (after e.map calls (utf16ToString name))
          (getEnvironmentVariableW e' name buffer nSize)) ∧
      -- a set answers
      (∀ name value, utf16ToString name = [] →
        setEnvironmentVariableW e' name value = some (false, e')) ∧
      (∀ name value, utf16ToString name ≠ [] → '=' ∉ utf16ToString name →
        ∃ e'', setEnvironmentVariableW e' name value = some (true, e'')) ∧
      -- the block lists the map
      (e.Unicode → ∀ vars : List (Σ _ : OsString, OsString), vars.Perm e'.vars.entries →
        ∃ block, getEnvironmentStringsW vars = some block ∧
          ((readBlock block).map Prod.fst).Nodup ∧
          (∀ name units, (name, units) ∈ readBlock block ↔
            ∃ key, name = encode key ∧ after e.map calls key = some units) ∧
          [0] <:+ block ∧
          ((∃ key units, after e.map calls key = some units) → [0, 0] <:+ block)) := by
  obtain ⟨e', hrun, hmap⟩ := run_map h e
  refine ⟨e', hrun, ?_, ?_, ?_, ?_⟩
  · intro name buffer nSize hlen
    rw [← hmap] at hlen ⊢
    exact getEnvironmentVariableW_follows e' name buffer nSize hlen
  · intro name value hname
    exact if_pos hname
  · intro name value hname hequals
    obtain ⟨e'', hset, -⟩ := setEnvironmentVariableW_some e' value hname hequals
    exact ⟨e'', hset⟩
  · intro hunicode vars hvars
    rw [← hmap]
    exact block_spec (hunicode.run hrun) hvars

/-- An environment with no variables. -/
def blank : Environ where
  vars := ∅
  named := fun _ h => absurd h (AList.notMem_empty _)
  no_nul := fun _ _ h => absurd h (by simp)

def wide (s : String) : WStr := some (encode s.toList)

theorem environment_is_map_blank : ∃ e', run blank [.set (wide "Path") (wide "x")] = some e' ∧
    Follows true 8 (some [0x78]) (getEnvironmentVariableW e' (wide "Path") true 8) := by
  have hcalls : Settable [.set (wide "Path") (wide "x")] := by
    intro name value hmem
    obtain ⟨rfl, -⟩ := Call.set.inj (List.mem_singleton.mp hmem)
    decide
  obtain ⟨e', hrun, hget, -⟩ := environment_is_map blank _ hcalls
  have hafter : after blank.map [.set (wide "Path") (wide "x")] (utf16ToString (wide "Path")) =
      some [0x78] := by decide
  refine ⟨e', hrun, ?_⟩
  rw [← hafter]
  apply hget
  rw [hafter]
  simp

/-- `PATH` is another name, half of a pair does not come back, a name with an `=` is a panic, and
    the block of nothing ends with one NUL. -/
theorem upper_path_missing :
    (run blank [.set (wide "Path") (wide "x")]).map
      (getEnvironmentVariableW · (wide "PATH") true 8) = some ⟨[], 0, some 203⟩ ∧
    (run blank [.set (wide "Path") (some [0xD800])]).map
      (getEnvironmentVariableW · (wide "Path") true 8) = some ⟨[0xFFFD, 0], 1, none⟩ ∧
    (setEnvironmentVariableW blank (wide "A=B") (wide "x")).isNone ∧
    getEnvironmentStringsW blank.vars.entries = some [0] := by
  refine ⟨?_, ?_, ?_, ?_⟩ <;> decide

end WinCompat.Process.Environment
