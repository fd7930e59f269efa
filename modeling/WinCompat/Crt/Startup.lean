import WinCompat.Process.CommandLine

/-!
# What a C program is started with

`getmainargs` and `build_args_and_env` of `win32-kernel32/src/crt.rs`, and `ensure_ucrt_init` with
the accessors over it (`ucrt.rs`). The arguments and the environment of the host are read once, as
texts, and everything is handed out from that; reading bytes that are no text is a panic.
-/

namespace WinCompat.Crt.Startup

open Lib Process

abbrev Bytes := List UInt8

def equals : UInt8 := 0x3D

/-- An array of `char *`; an entry is the string behind the pointer, or NULL. -/
abbrev Strings := List (Option Bytes)

/-! ## The host -/

/-- What the host was started with: strings without NUL, no more arguments than an `int` counts. -/
structure Host where
  args : List Bytes
  env : List Bytes
  args_clean : ∀ a ∈ args, 0 ∉ a
  env_clean : ∀ e ∈ env, 0 ∉ e
  few : args.length < 2 ^ 31

/-- How `std::env::vars` takes an entry apart: at the first `=` behind its first byte. -/
def parseEntry : Bytes → Option (Bytes × Bytes)
  | [] => none
  | b :: rest =>
      if equals ∈ rest then
        some (b :: rest.takeWhile (· ≠ equals), (rest.dropWhile (· ≠ equals)).tail)
      else none

/-- A variable as texts. -/
def textOf (v : Bytes × Bytes) : Option (CommandLine.Text × CommandLine.Text) :=
  match (Utf8.decode? v.1).map String.toList, (Utf8.decode? v.2).map String.toList with
  | some name, some value => some (name, value)
  | _, _ => none

/-- `std::env::vars`, which panics on a variable that is no text. -/
def hostVars (env : List Bytes) : Option (List (CommandLine.Text × CommandLine.Text)) :=
  (env.filterMap parseEntry).mapM textOf

/-! ## The code -/

/-- `CString::new(s).unwrap_or_else(|_| CString::new("").unwrap())` -/
def cstring (t : CommandLine.Text) : Bytes :=
  let bytes := Utf8.encode t
  if 0 ∈ bytes then [] else bytes

structure ArgEnv where
  argStrings : List Bytes
  envStrings : List Bytes
  argv : Strings
  envp : Strings

/-- What `CACHE` is initialised with. -/
def argEnv (h : Host) : Option ArgEnv := do
  let argStrings := (← hostArgs h.args).map cstring
  let envStrings := (← hostVars h.env).map fun v => cstring (v.1 ++ '=' :: v.2)
  return ⟨argStrings, envStrings, argStrings.map some ++ [none], envStrings.map some ++ [none]⟩

/-- The statics. -/
structure State where
  cache : Option ArgEnv
  initenv : Option Strings
  ucrt : Option (BitVec 32 × Strings × Strings)

def State.fresh : State := ⟨none, none, none⟩

/-- `build_args_and_env`; `none` is a panic. -/
def buildArgsAndEnv (h : Host) (s : State) : Option ((Nat × Strings × Strings) × State) := do
  let ae ← s.cache.or (argEnv h)
  return ((ae.argv.length - 1, ae.argv, ae.envp), { s with cache := some ae })

/-- What a call lets its caller see. -/
structure Seen where
  argc : Option (BitVec 32)
  argv : Option Strings
  envp : Option Strings

/-- `getmainargs`, with these of its out pointers. -/
def getmainargs (h : Host) (argc argv envp : Bool) (s : State) : Option (Seen × State) := do
  let ((count, argvPtr, envpPtr), s) ← buildArgsAndEnv h s
  return (⟨if argc then some (BitVec.ofNat 32 count) else none,
    if argv then some argvPtr else none, if envp then some envpPtr else none⟩,
    { s with initenv := some envpPtr })

/-- `ensure_ucrt_init`, and the three globals after it. -/
def ensureUcrtInit (h : Host) (s : State) : Option ((BitVec 32 × Strings × Strings) × State) :=
  match s.ucrt with
  | some globals => some (globals, s)
  | none => do
      let (seen, s) ← getmainargs h true true true s
      let globals := (seen.argc.getD 0, seen.argv.getD [], seen.envp.getD [])
      return (globals, { s with ucrt := some globals })

inductive Call
  | getmainargs (argc argv envp : Bool)
  | configureNarrowArgv
  | initializeNarrowEnvironment
  | getInitialNarrowEnvironment
  | pArgc
  | pArgv

def Call.apply (h : Host) (s : State) : Call → Option (Seen × State)
  | .getmainargs argc argv envp => Startup.getmainargs h argc argv envp s
  | .configureNarrowArgv | .initializeNarrowEnvironment =>
      (ensureUcrtInit h s).map fun r => (⟨none, none, none⟩, r.2)
  | .getInitialNarrowEnvironment =>
      (ensureUcrtInit h s).map fun r => (⟨none, none, some r.1.2.2⟩, r.2)
  | .pArgc => (ensureUcrtInit h s).map fun r => (⟨some r.1.1, none, none⟩, r.2)
  | .pArgv => (ensureUcrtInit h s).map fun r => (⟨none, some r.1.2.1, none⟩, r.2)

/-- Calls one after the other, and what is seen; a panic ends the process. -/
def runs (h : Host) : State → List Call → Option (List Seen)
  | _, [] => some []
  | s, c :: cs => do
      let (seen, s) ← c.apply h s
      return seen :: (← runs h s cs)

/-! ## What they show -/

namespace Host

variable (h : Host)

/-- The entries that are a name, `=` and a value. -/
def pairs : List Bytes := h.env.filter fun e => equals ∈ e.tail

/-- What is seen is what the host was started with. -/
structure Describes (seen : Seen) : Prop where
  argc : ∀ n ∈ seen.argc, n.toInt = h.args.length
  argv : ∀ a ∈ seen.argv, a = h.args.map some ++ [none]
  envp : ∀ e ∈ seen.envp, e = h.pairs.map some ++ [none]

/-- The arguments, and the names and values of the environment, are texts. -/
structure Decodes : Prop where
  args : ∀ a ∈ h.args, (Utf8.decode? a).isSome
  env : ∀ e ∈ h.env, ∀ v ∈ parseEntry e, (Utf8.decode? v.1).isSome ∧ (Utf8.decode? v.2).isSome

end Host

theorem textOf_eq_some {v : Bytes × Bytes} {t : CommandLine.Text × CommandLine.Text} :
    textOf v = some t ↔ v = (Utf8.encode t.1, Utf8.encode t.2) := by
  rw [Prod.ext_iff, ← Utf8.decode?_eq_some, ← Utf8.decode?_eq_some]
  unfold textOf
  split
  · next name value hname hvalue => simp [hname, hvalue, Prod.ext_iff]
  · next h =>
    refine iff_of_false nofun fun ⟨hname, hvalue⟩ => h _ _ hname hvalue

theorem split_equals {rest : Bytes} (h : equals ∈ rest) :
    rest.takeWhile (· ≠ equals) ++ equals :: (rest.dropWhile (· ≠ equals)).tail = rest := by
  induction rest with
  | nil => exact absurd h List.not_mem_nil
  | cons x rest ih =>
    by_cases hx : x = equals
    · simp [hx]
    · have hrest := ih ((List.mem_cons.mp h).resolve_left (Ne.symm hx))
      simpa [hx] using hrest

theorem parseEntry_eq (e : Bytes) :
    if equals ∈ e.tail then ∃ v, parseEntry e = some v ∧ v.1 ++ equals :: v.2 = e
    else parseEntry e = none := by
  cases e with
  | nil => simp [parseEntry]
  | cons b rest =>
    rw [List.tail_cons]
    split
    · next hmem => exact ⟨_, if_pos hmem, congrArg (b :: ·) (split_equals hmem)⟩
    · next hmem => exact if_neg hmem

theorem pairs_eq (env : List Bytes) :
    (env.filterMap parseEntry).map (fun v => v.1 ++ equals :: v.2) =
      env.filter fun e => equals ∈ e.tail := by
  induction env with
  | nil => rfl
  | cons e env ih =>
    have h := parseEntry_eq e
    by_cases hmem : equals ∈ e.tail
    · rw [if_pos hmem] at h
      obtain ⟨v, hv, hjoin⟩ := h
      simp [hv, hjoin, hmem, ih]
    · rw [if_neg hmem] at h
      simp [h, hmem, ih]

variable {h : Host}

theorem cstring_eq {t : CommandLine.Text} (ht : 0 ∉ Utf8.encode t) : cstring t = Utf8.encode t :=
  if_neg ht

/-- What is built, where nothing panics. -/
theorem argEnv_of_decodes (hd : h.Decodes) : ∃ ae, argEnv h = some ae ∧
    ae.argv = h.args.map some ++ [none] ∧ ae.envp = h.pairs.map some ++ [none] := by
  obtain ⟨args, hargs⟩ : ∃ args, hostArgs h.args = some args := by
    refine ⟨h.args.map fun a => ((Utf8.decode? a).getD "").toList, hostArgs_eq_some.mpr ?_⟩
    rw [List.map_map]
    refine (List.map_id _).symm.trans (List.map_congr_left fun a ha => ?_)
    obtain ⟨s, hs⟩ := Option.isSome_iff_exists.mp (hd.args a ha)
    simp [hs, Utf8.encode_of_decode? hs]
  obtain ⟨vars, hvars⟩ : ∃ vars, hostVars h.env = some vars := by
    refine ⟨(h.env.filterMap parseEntry).map fun v => (((Utf8.decode? v.1).getD "").toList,
      ((Utf8.decode? v.2).getD "").toList), (Utf8.mapM_eq_some fun _ _ => textOf_eq_some).mpr ?_⟩
    rw [List.map_map]
    refine (List.map_id _).symm.trans (List.map_congr_left fun v hv => ?_)
    obtain ⟨e, he, hparse⟩ := List.mem_filterMap.mp hv
    obtain ⟨hname, hvalue⟩ := hd.env e he v hparse
    obtain ⟨s, hs⟩ := Option.isSome_iff_exists.mp hname
    obtain ⟨t, ht⟩ := Option.isSome_iff_exists.mp hvalue
    simp [hs, ht, Utf8.encode_of_decode? hs, Utf8.encode_of_decode? ht]
  have hargs' := hostArgs_eq_some.mp hargs
  have hvars' := (Utf8.mapM_eq_some fun _ _ => textOf_eq_some).mp hvars
  have hpairs : h.pairs = vars.map fun v => Utf8.encode (v.1 ++ '=' :: v.2) := by
    rw [Host.pairs, ← pairs_eq, hvars', List.map_map]
    refine List.map_congr_left fun v _ => ?_
    rw [Utf8.encode_append]
    rfl
  refine ⟨_, by simp only [argEnv, hargs, hvars]; rfl, ?_, ?_⟩
  · refine congrArg (List.map some · ++ [none]) ?_
    rw [hargs']
    refine List.map_congr_left fun t ht => cstring_eq (h.args_clean _ ?_)
    rw [hargs']
    exact List.mem_map_of_mem ht
  · refine congrArg (List.map some · ++ [none]) ?_
    rw [hpairs]
    refine List.map_congr_left fun v hv => cstring_eq (h.env_clean _ ?_)
    have hmem : Utf8.encode (v.1 ++ '=' :: v.2) ∈ h.pairs := hpairs ▸ List.mem_map_of_mem hv
    exact (List.mem_filter.mp hmem).1

theorem decodes_of_argEnv {ae : ArgEnv} (hae : argEnv h = some ae) : h.Decodes := by
  obtain ⟨args, hargs, hrest⟩ := Option.bind_eq_some_iff.mp hae
  obtain ⟨vars, hvars, -⟩ := Option.bind_eq_some_iff.mp hrest
  have hvars' := (Utf8.mapM_eq_some fun _ _ => textOf_eq_some).mp hvars
  refine ⟨fun a ha => ?_, fun e he v hv => ?_⟩
  · rw [hostArgs_eq_some.mp hargs] at ha
    obtain ⟨t, -, rfl⟩ := List.mem_map.mp ha
    simp [Utf8.decode?_encode]
  · have hmem := List.mem_filterMap.mpr ⟨e, he, hv⟩
    rw [hvars'] at hmem
    obtain ⟨t, -, rfl⟩ := List.mem_map.mp hmem
    simp [Utf8.decode?_encode]

/-- What is cached is what the host was started with. -/
structure Inv (h : Host) (s : State) : Prop where
  cache : ∀ ae ∈ s.cache, argEnv h = some ae
  ucrt : ∀ g ∈ s.ucrt, h.Describes ⟨some g.1, some g.2.1, some g.2.2⟩

theorem Host.Describes.mono {seen : Seen} (hs : h.Describes seen) {seen' : Seen}
    (hargc : ∀ n ∈ seen'.argc, n ∈ seen.argc) (hargv : ∀ a ∈ seen'.argv, a ∈ seen.argv)
    (henvp : ∀ e ∈ seen'.envp, e ∈ seen.envp) : h.Describes seen' :=
  ⟨fun n hn => hs.argc n (hargc n hn), fun a ha => hs.argv a (hargv a ha),
    fun e he => hs.envp e (henvp e he)⟩

variable {s : State}

theorem Inv.getmainargs (hd : h.Decodes) (hs : Inv h s) (argc argv envp : Bool) :
    ∃ seen s', Startup.getmainargs h argc argv envp s = some (seen, s') ∧ h.Describes seen ∧
      Inv h s' := by
  obtain ⟨ae, hae, hargv, henvp⟩ := argEnv_of_decodes hd
  have hcache : s.cache.or (argEnv h) = some ae := by
    cases hc : s.cache with
    | none => exact hae
    | some ae' => exact (hs.cache ae' hc).symm.trans hae
  have hbuild : buildArgsAndEnv h s =
      some ((ae.argv.length - 1, ae.argv, ae.envp), { s with cache := some ae }) := by
    simp only [buildArgsAndEnv, hcache]
    rfl
  refine ⟨⟨if argc then some (BitVec.ofNat 32 (ae.argv.length - 1)) else none,
    if argv then some ae.argv else none, if envp then some ae.envp else none⟩,
    ⟨some ae, some ae.envp, s.ucrt⟩, by simp only [Startup.getmainargs, hbuild]; rfl, ?_, ?_, hs.ucrt⟩
  · have hcount : (BitVec.ofNat 32 (ae.argv.length - 1)).toInt = h.args.length := by
      have hfew := h.few
      rw [hargv, List.length_append, List.length_map, List.length_singleton, Nat.add_sub_cancel,
        BitVec.toInt_eq_toNat_bmod, BitVec.toNat_ofNat, Int.bmod_def]
      omega
    constructor
    · cases argc <;> simp [hcount]
    · cases argv <;> simp [hargv]
    · cases envp <;> simp [henvp]
  · rintro ae' ⟨⟩
    exact hae

theorem Inv.ensureUcrtInit (hd : h.Decodes) (hs : Inv h s) :
    ∃ g s', Startup.ensureUcrtInit h s = some (g, s') ∧
      h.Describes ⟨some g.1, some g.2.1, some g.2.2⟩ ∧ Inv h s' := by
  cases hu : s.ucrt with
  | some g => exact ⟨g, s, by simp only [Startup.ensureUcrtInit, hu], hs.ucrt g hu, hs⟩
  | none =>
    obtain ⟨seen, s', hcall, hseen, hs'⟩ := hs.getmainargs hd true true true
    obtain ⟨⟨args, argv, envp⟩, -, hargc⟩ : ∃ g : BitVec 32 × Strings × Strings, True ∧
        seen = ⟨some g.1, some g.2.1, some g.2.2⟩ := by
      obtain ⟨⟨⟨n, a, e⟩, s₁⟩, -, heq⟩ := Option.bind_eq_some_iff.mp hcall
      obtain ⟨rfl, -⟩ := Prod.mk.inj (Option.some.inj heq)
      exact ⟨(BitVec.ofNat 32 n, a, e), trivial, rfl⟩
    subst hargc
    refine ⟨(args, argv, envp), { s' with ucrt := some (args, argv, envp) }, ?_, hseen, hs'.cache,
      fun g hg => ?_⟩
    · simp only [Startup.ensureUcrtInit, hu, hcall]
      rfl
    · obtain rfl := Option.some.inj hg
      exact hseen

/-- **One call** on a host whose strings are texts. -/
theorem Inv.step (hd : h.Decodes) (hs : Inv h s) (c : Call) :
    ∃ seen s', c.apply h s = some (seen, s') ∧ h.Describes seen ∧ Inv h s' := by
  obtain ⟨g, s', hinit, hg, hs'⟩ := hs.ensureUcrtInit hd
  cases c with
  | getmainargs argc argv envp => exact hs.getmainargs hd argc argv envp
  | configureNarrowArgv | initializeNarrowEnvironment =>
    exact ⟨_, s', congrArg (Option.map _) hinit, hg.mono nofun nofun nofun, hs'⟩
  | getInitialNarrowEnvironment =>
    exact ⟨_, s', congrArg (Option.map _) hinit, hg.mono nofun nofun fun _ h => h, hs'⟩
  | pArgc => exact ⟨_, s', congrArg (Option.map _) hinit, hg.mono (fun _ h => h) nofun nofun, hs'⟩
  | pArgv => exact ⟨_, s', congrArg (Option.map _) hinit, hg.mono nofun (fun _ h => h) nofun, hs'⟩

theorem Inv.runs (hd : h.Decodes) (hs : Inv h s) (cs : List Call) :
    ∃ results, Startup.runs h s cs = some results ∧ ∀ seen ∈ results, h.Describes seen := by
  induction cs generalizing s with
  | nil => exact ⟨[], rfl, nofun⟩
  | cons c cs ih =>
    obtain ⟨seen, s', hcall, hseen, hs'⟩ := hs.step hd c
    obtain ⟨results, hruns, hresults⟩ := ih hs'
    refine ⟨seen :: results, by simp only [Startup.runs, hcall, Option.bind_eq_bind,
      Option.bind_some, hruns]; rfl, List.forall_mem_cons.mpr ⟨hseen, hresults⟩⟩

/-- **Start-up data**: in every order of calls nothing panics and all that is seen is what the host
    was started with, exactly where its arguments and its variables are texts. -/
theorem startup_iff (h : Host) : (∀ cs : List Call, ∃ results,
    runs h .fresh cs = some results ∧ ∀ seen ∈ results, h.Describes seen) ↔ h.Decodes := by
  constructor
  · intro hall
    obtain ⟨results, hruns, -⟩ := hall [.getmainargs true true true]
    obtain ⟨r, hcall, -⟩ := Option.bind_eq_some_iff.mp hruns
    obtain ⟨r, hbuild, -⟩ := Option.bind_eq_some_iff.mp hcall
    obtain ⟨ae, hae, -⟩ := Option.bind_eq_some_iff.mp hbuild
    exact decodes_of_argEnv hae
  · have hfresh : Inv h .fresh := by
      refine ⟨fun _ h => ?_, fun _ h => ?_⟩ <;> exact absurd h (by simp [State.fresh])
    exact fun hd cs => hfresh.runs hd cs

/-- An argument that is no text. -/
def notText : Host where
  args := [[0xFF]]
  env := []
  args_clean := by decide
  env_clean := nofun
  few := by decide

theorem startup_notText : runs notText .fresh [.getmainargs true true true] = none := by
  have hpanic : hostArgs notText.args = none := by
    rw [hostArgs, notText, List.mapM_cons]
    rfl
  simp only [runs, Call.apply, getmainargs, buildArgsAndEnv, argEnv, State.fresh, hpanic]
  rfl

end WinCompat.Crt.Startup
