import WinCompat.Sync.WaitMultiple

/-!
# The schedules that break `bWaitAll`

The other half of `AllOrNothing`. When a position that is consumed meets another that may be found
not signalled, the other threads can arrange for both to happen in one round: they make the first
available just before it is polled, and leave, or make, the second unavailable. With a finite
timeout the call then reports `WAIT_TIMEOUT` and keeps what it took. Without one they make
everything available in the second round, and the call succeeds having taken the first position
twice.
-/

namespace WinCompat.Sync.WaitMultiple

open Lib Semaphore

attribute [local simp] State.next State.access State.goto State.take State.setObj State.polled

variable {c : Call} {objs : Nat → Obj}

/-- The call is about to poll position `i`, and nobody is inside a `ReleaseMutex`. -/
structure Ready (objs : Nat → Obj) (s : State) (i : Nat) : Prop where
  pc : s.pc = .poll i
  idle : ∀ u, s.others u = .idle
  kind : ∀ h, (s.objs h).kind = (objs h).kind
  settled : ∀ h, (s.objs h).settled

/-- A zero-timeout wait on the object would succeed. -/
def Obj.available (me : Tid) : Obj → Bool
  | .event _ signaled => signaled
  | .mutex lock owner _ => !lock || owner = me.val
  | .semaphore count => count ≠ 0
  | .thread => true
  | .other => false

/-- `s'` differs from `s` at most in the object `h`, and in what the others are doing. -/
structure Adjusts (s s' : State) (h : Nat) : Prop where
  allSignaled : s'.allSignaled = s.allSignaled
  taken : s'.taken = s.taken
  deadline : s'.deadline = s.deadline
  frame : ∀ h' ≠ h, s'.objs h' = s.objs h'

theorem Adjusts.refl {s : State} {h : Nat} : Adjusts s s h := ⟨rfl, rfl, rfl, fun _ _ => rfl⟩

theorem Adjusts.trans {s s₁ s' : State} {h : Nat} (h₁ : Adjusts s s₁ h) (h₂ : Adjusts s₁ s' h) :
    Adjusts s s' h :=
  ⟨h₂.allSignaled.trans h₁.allSignaled, h₂.taken.trans h₁.taken, h₂.deadline.trans h₁.deadline,
    fun h' hne => (h₂.frame h' hne).trans (h₁.frame h' hne)⟩

variable {o : Obj}

theorem Adjusts.write {s s' : State} {h : Nat} (ho : s'.objs = Function.update s.objs h o)
    (ha : s'.allSignaled = s.allSignaled) (ht : s'.taken = s.taken) (hd : s'.deadline = s.deadline) :
    Adjusts s s' h := by
  refine ⟨ha, ht, hd, ?_⟩
  intro h' hne
  rw [ho]
  exact Function.update_of_ne hne _ _

theorem Ready.write {s s' : State} {i i' h : Nat} (hr : Ready objs s i)
    (ho : s'.objs = Function.update s.objs h o) (hpc : s'.pc = .poll i')
    (hidle : ∀ u, s'.others u = .idle) (hk : o.kind = (s.objs h).kind) (hs : o.settled) :
    Ready objs s' i' := by
  refine ⟨hpc, hidle, ?_, ?_⟩
  · intro h'
    rw [ho, Function.update_apply]
    split
    · next e => rw [hk, e]; exact hr.kind h
    · exact hr.kind h'
  · intro h'
    rw [ho, Function.update_apply]
    split
    · exact hs
    · exact hr.settled h'

theorem Ready.mutex {s : State} {i h owner : Nat} {lock : Bool} {k : BitVec 32}
    (hr : Ready objs s i) (ho : s.objs h = .mutex lock owner k) : lock = true ↔ owner ≠ 0 := by
  have := hr.settled h
  rw [ho] at this
  exact this

/-! ## Making an object available, or not -/

theorem release_to {s : State} {i h : Nat} (hr : Ready objs s i) (n : Nat) :
    ∀ count, s.objs h = .semaphore count →
      ∃ s', (waitMultiple c objs).Run s s' ∧ Ready objs s' i ∧ Adjusts s s' h ∧
        s'.objs h = .semaphore (count + BitVec.ofNat 32 n) := by
  induction n generalizing s with
  | zero =>
    intro count ho
    refine ⟨s, .refl, hr, .refl, ?_⟩
    rw [ho]
    simp
  | succ n ih =>
    intro count ho
    have hone : clampCount (BitVec.toInt 1#32) = 1 := by decide
    have hnext : s.next c (.releaseSemaphore h 1) = some (s.setObj h (.semaphore (count + 1))) := by
      simp only [State.next, ho]
      rw [show clampCount (BitVec.toInt 1) = 1 from hone]
    have hr' : Ready objs (s.setObj h (.semaphore (count + 1))) i :=
      hr.write rfl hr.pc hr.idle (by rw [ho]; rfl) trivial
    have hadj' : Adjusts s (s.setObj h (.semaphore (count + 1))) h := .write rfl rfl rfl rfl
    obtain ⟨s', hrun, hready, hadj, hobj⟩ :=
      ih hr' (count + 1) (Function.update_self _ _ _)
    refine ⟨s', (Machine.Run.one (.releaseSemaphore h 1) _ hnext).trans hrun, hready, hadj'.trans hadj, ?_⟩
    rw [hobj, BitVec.ofNat_add, BitVec.add_assoc, BitVec.add_comm 1]
    rfl

/-- The state while `u` is inside `ReleaseMutex(h)`, seen from the state it was called in. -/
def State.during (s : State) (u : Tid) (h : Nat) (o : Obj) (r : Releasing) : State :=
  { s with objs := Function.update s.objs h o, others := Function.update s.others u r }

theorem next_during (objs : Nat → Obj) (s : State) {u : Tid} {h : Nat} (lock : Bool) (owner : Nat)
    (k : BitVec 32) (hu : u ≠ c.me) (r : Releasing) (lock' : Bool) (owner' : Nat) (k' : BitVec 32)
    (r' : Releasing) (hstep : (r, lock', owner', k', r') =
      (.recursion h, lock, owner, k - 1, if k - 1 = 0 then .owner h else .idle) ∨
      (r, lock', owner', k', r') = (.owner h, lock, 0, k, .lock h) ∨
      (r, lock', owner', k', r') = (.lock h, false, owner, k, .idle)) :
    (waitMultiple c objs).next (s.during u h (.mutex lock owner k) r) (.releaseStep u) =
      some (s.during u h (.mutex lock' owner' k') r') := by
  rcases hstep with e | e | e <;> cases e <;>
    simp only [waitMultiple, State.next, if_neg hu, State.releaseStep, State.during,
      State.setObj, State.setOther, Function.update_self, Function.update_idem]

theorem next_releaseMutex (objs : Nat → Obj) {s : State} {u : Tid} {h : Nat} {lock : Bool} {k : BitVec 32}
    (hu : u ≠ c.me) (hidle : s.others u = .idle) (ho : s.objs h = .mutex lock u.val k) :
    (waitMultiple c objs).next s (.releaseMutex u h) =
      some (s.during u h (.mutex lock u.val k) (.recursion h)) := by
  have hno : ¬ (u = c.me ∨ s.others u ≠ .idle) := not_or.mpr ⟨hu, fun e => e hidle⟩
  simp only [waitMultiple, State.next, if_neg hno, ho, if_true, State.setOther, State.during]
  rw [← ho, Function.update_eq_self]

theorem Ready.during {s : State} {i h : Nat} {u : Tid} (hr : Ready objs s i)
    (hk : o.kind = (s.objs h).kind) (hs : o.settled) : Ready objs (s.during u h o .idle) i := by
  refine hr.write rfl hr.pc ?_ hk hs
  intro u'
  simp only [State.during, Function.update_apply]
  split
  · rfl
  · exact hr.idle u'

theorem release_mutex {u : Tid} {h : Nat} (hu : u ≠ c.me) (n : Nat) :
    ∀ {s : State} {i : Nat} {lock : Bool} {k : BitVec 32}, Ready objs s i →
      s.objs h = .mutex lock u.val k → (k - 1).toNat = n →
        ∃ s' k', (waitMultiple c objs).Run s s' ∧ Ready objs s' i ∧ Adjusts s s' h ∧
          s'.objs h = .mutex false 0 k' := by
  induction n with
  | zero =>
    intro s i lock k hr ho hn
    have hz : k - 1 = 0 := BitVec.eq_of_toNat_eq hn
    have h₁ := next_releaseMutex objs hu (hr.idle u) ho
    have h₂ := next_during objs s lock u.val k hu
      (.recursion h) lock u.val (k - 1) (.owner h) (Or.inl (by rw [if_pos hz]))
    have h₃ := next_during objs s lock u.val (k - 1) hu
      (.owner h) lock 0 (k - 1) (.lock h) (Or.inr (Or.inl rfl))
    have h₄ := next_during objs s lock 0 (k - 1) hu
      (.lock h) false 0 (k - 1) .idle (Or.inr (Or.inr rfl))
    refine ⟨s.during u h (.mutex false 0 (k - 1)) .idle, k - 1, ?_, ?_, .write rfl rfl rfl rfl,
      Function.update_self _ _ _⟩
    · exact (Machine.Run.one _ _ h₁).trans ((Machine.Run.one _ _ h₂).trans
        ((Machine.Run.one _ _ h₃).trans (Machine.Run.one _ _ h₄)))
    · apply hr.during
      · rw [ho]; rfl
      · show false = true ↔ 0 ≠ 0
        simp
  | succ n ih =>
    intro s i lock k hr ho hn
    have hz : k - 1 ≠ 0 := by
      intro e
      rw [e] at hn
      cases hn
    have h₁ := next_releaseMutex objs hu (hr.idle u) ho
    have h₂ := next_during objs s lock u.val k hu
      (.recursion h) lock u.val (k - 1) .idle (Or.inl (by rw [if_neg hz]))
    have hr' : Ready objs (s.during u h (.mutex lock u.val (k - 1)) .idle) i := by
      apply hr.during
      · rw [ho]; rfl
      · exact hr.mutex ho
    have hadj' : Adjusts s (s.during u h (.mutex lock u.val (k - 1)) .idle) h :=
      .write rfl rfl rfl rfl
    have hn' : (k - 1 - 1).toNat = n := by
      have hlt := (k - 1).isLt
      rw [BitVec.toNat_sub, hn, show (1 : BitVec 32).toNat = 1 from rfl]
      omega
    obtain ⟨s', k', hrun, hready, hadj, hobj⟩ := ih hr' (Function.update_self _ _ _) hn'
    exact ⟨s', k', (Machine.Run.one _ _ h₁).trans ((Machine.Run.one _ _ h₂).trans hrun), hready,
      hadj'.trans hadj, hobj⟩

theorem make_available {s : State} {i h : Nat} (hr : Ready objs s i)
    (hw : (objs h).kind.waitable = true) :
    ∃ s', (waitMultiple c objs).Run s s' ∧ Ready objs s' i ∧ Adjusts s s' h ∧
      (s'.objs h).available c.me = true := by
  have hkind := hr.kind h
  by_cases hav : (s.objs h).available c.me = true
  · exact ⟨s, .refl, hr, .refl, hav⟩
  cases ho : s.objs h with
  | event manual signaled =>
    refine ⟨s.setObj h (.event manual true), Machine.Run.one (.setEvent h) _ ?_, ?_,
      .write rfl rfl rfl rfl, ?_⟩
    · simp only [waitMultiple, State.next, ho]
    · exact hr.write rfl hr.pc hr.idle (by rw [ho]; rfl) trivial
    · rw [show (s.setObj h (.event manual true)).objs h = _ from Function.update_self _ _ _]
      rfl
  | mutex lock owner k =>
    rw [ho] at hav
    simp only [Obj.available, Bool.or_eq_true, Bool.not_eq_true', decide_eq_true_eq,
      not_or, Bool.not_eq_false] at hav
    have hset := hr.mutex ho
    have hne : (⟨owner, hset.mp hav.1⟩ : Tid) ≠ c.me := by
      intro e
      exact hav.2 (congrArg Subtype.val e)
    obtain ⟨s', k', hrun, hready, hadj, hobj⟩ := release_mutex hne _ hr ho rfl
    refine ⟨s', hrun, hready, hadj, ?_⟩
    rw [hobj]
    rfl
  | semaphore count =>
    obtain ⟨s', hrun, hready, hadj, hobj⟩ := release_to (c := c) hr 1 count ho
    refine ⟨s', hrun, hready, hadj, ?_⟩
    have hz : count = 0 := by
      rw [ho] at hav
      simpa [Obj.available] using hav
    rw [hobj, hz]
    rfl
  | thread => rw [ho] at hkind; rw [← hkind] at hw; cases hw
  | other => rw [ho] at hkind; rw [← hkind] at hw; cases hw

/-! ## One poll -/

/-- One access of the call, as a run. -/
theorem run_access {s t : State} (h : s.access c = some t) : (waitMultiple c objs).Run s t :=
  Machine.Run.one Action.access t (show (waitMultiple c objs).next s .access = some t from h)

/-- What one poll leaves: the object at its position may have changed, and an auto-reset event is
    unset afterwards whatever the poll answered. -/
structure Polls (c : Call) (objs : Nat → Obj) (s s' : State) (i h : Nat) : Prop where
  run : (waitMultiple c objs).Run s s'
  ready : Ready objs s' (i + 1)
  deadline : s'.deadline = s.deadline
  frame : ∀ h' ≠ h, s'.objs h' = s.objs h'
  unset : (objs h).kind = .event false → s'.objs h = .event false false
  keeps : ∀ j ∈ s.taken, j ∈ s'.taken

/-- A poll of an available object. -/
structure PollsSignaled (c : Call) (objs : Nat → Obj) (s s' : State) (i h : Nat) : Prop
    extends Polls c objs s s' i h where
  allSignaled : s'.allSignaled = s.allSignaled
  taken : s'.taken = s.taken ++ if (objs h).kind.consumes then [i] else []

/-- A poll of an object that is not available. -/
structure PollsTimeout (c : Call) (objs : Nat → Obj) (s s' : State) (i h : Nat) : Prop
    extends Polls c objs s s' i h where
  allSignaled : s'.allSignaled = false
  same : s'.objs = s.objs

theorem pollsSignaled_take {s s' : State} {i h : Nat} (hr : Ready objs s i)
    (hrun : (waitMultiple c objs).Run s s') (hs' : s' = { s with
      objs := Function.update s.objs h o, taken := s.taken ++ [i], pc := .poll (i + 1) })
    (hk : o.kind = (s.objs h).kind) (hs : o.settled) (hc : (objs h).kind.consumes = true)
    (hunset : (objs h).kind = .event false → o = .event false false) :
    PollsSignaled c objs s s' i h := by
  subst hs'
  refine ⟨⟨hrun, hr.write rfl rfl hr.idle hk hs, rfl, ?_, ?_, ?_⟩, rfl, ?_⟩
  · intro h' hne
    exact Function.update_of_ne hne _ _
  · intro e
    exact (Function.update_self _ _ _).trans (hunset e)
  · intro j hj
    exact List.mem_append_left _ hj
  · rw [hc]
    rfl

/-- A poll of an object that is signalled and stays so. -/
theorem pollsSignaled_stay {s : State} {i h : Nat} (hr : Ready objs s i)
    (hstep : s.access c = some (s.goto (.poll (i + 1))))
    (hc : (objs h).kind.consumes = false) (hunset : (objs h).kind ≠ .event false) :
    PollsSignaled c objs s (s.goto (.poll (i + 1))) i h := by
  refine ⟨⟨run_access hstep, ⟨rfl, hr.idle, hr.kind, hr.settled⟩, rfl, fun _ _ => rfl, ?_,
    fun j hj => hj⟩, rfl, ?_⟩
  · intro e
    exact absurd e hunset
  · rw [hc]
    exact (List.append_nil _).symm

theorem poll_signaled {s : State} {i h : Nat} (hall : c.waitAll = true) (hr : Ready objs s i)
    (hi : c.handles[i]? = some h) (hav : (s.objs h).available c.me = true) :
    ∃ s', PollsSignaled c objs s s' i h := by
  have hkind := hr.kind h
  have hset := hr.settled h
  have hpc := hr.pc
  cases ho : s.objs h with
  | event manual signaled =>
    rw [ho] at hav hkind
    have hsig : signaled = true := hav
    subst hsig
    cases manual with
    | true =>
      refine ⟨_, pollsSignaled_stay hr ?_ (by rw [← hkind]; rfl) (by rw [← hkind]; nofun)⟩
      simp [hpc, hi, ho, hall]
    | false =>
      refine ⟨_, pollsSignaled_take hr ?_ rfl (o := .event false false) (by rw [ho]; rfl)
        trivial (by rw [← hkind]; rfl) fun _ => rfl⟩
      refine (run_access (t := s.goto (.eventCas i h)) ?_).trans (run_access ?_)
      · simp [hpc, hi, ho]
      · simp [ho, hall]
  | mutex lock owner k =>
    rw [ho] at hkind
    by_cases hown : owner = c.me.val
    · refine ⟨_, pollsSignaled_take hr ?_ rfl (o := .mutex lock owner (k + 1))
        (by rw [ho]; rfl) (by rw [ho] at hset; exact hset) (by rw [← hkind]; rfl)
        fun e => by rw [← hkind] at e; cases e⟩
      refine (run_access (t := s.goto (.mutexAgain i h)) ?_).trans (run_access ?_)
      · simp [hpc, hi, ho, hown]
      · simp [ho, hall]
    · have hlock : lock = false := by
        rw [ho] at hav
        simpa [Obj.available, hown] using hav
      subst hlock
      refine ⟨_, pollsSignaled_take hr ?_ rfl (o := .mutex true c.me.val 1)
        (by rw [ho]; rfl) ⟨fun _ => c.me.2, fun _ => rfl⟩ (by rw [← hkind]; rfl)
        fun e => by rw [← hkind] at e; cases e⟩
      refine (run_access (t := s.goto (.mutexCas i h)) ?_).trans
        ((run_access (t := (s.take i h (.mutex true owner k)).goto (.mutexOwner i h)) ?_).trans
        ((run_access (t := (s.take i h (.mutex true c.me.val k)).goto (.mutexRecursion i h))
          ?_).trans (run_access ?_)))
      · simp [hpc, hi, ho, hown]
      · simp [ho]
      · simp
      · simp [hall]
  | semaphore count =>
    rw [ho] at hkind
    have hne : count ≠ 0 := by
      rw [ho] at hav
      simpa [Obj.available] using hav
    refine ⟨_, pollsSignaled_take hr ?_ rfl (o := .semaphore (count - 1))
      (by rw [ho]; rfl) trivial (by rw [← hkind]; rfl) fun e => by rw [← hkind] at e; cases e⟩
    refine (run_access (t := s.goto (.semaphoreCas i h count)) ?_).trans (run_access ?_)
    · simpa [hpc, hi, ho] using hne
    · simp [ho, hall]
  | thread =>
    rw [ho] at hkind
    refine ⟨_, pollsSignaled_stay hr ?_ (by rw [← hkind]; rfl) (by rw [← hkind]; nofun)⟩
    simp [hpc, hi, ho, hall]
  | other => rw [ho] at hav; cases hav

theorem poll_timeout {s : State} {i h : Nat} (hr : Ready objs s i)
    (hi : c.handles[i]? = some h) (hw : (objs h).kind.waitable = true)
    (hav : (s.objs h).available c.me = false) : ∃ s', PollsTimeout c objs s s' i h := by
  have hkind := hr.kind h
  have hpc := hr.pc
  have hready : Ready objs { s with allSignaled := false, pc := .poll (i + 1) } (i + 1) :=
    ⟨rfl, hr.idle, hr.kind, hr.settled⟩
  refine ⟨{ s with allSignaled := false, pc := .poll (i + 1) },
    ⟨⟨?_, hready, rfl, fun _ _ => rfl, ?_, fun j hj => hj⟩, rfl, rfl⟩⟩
  · cases ho : s.objs h with
    | event manual signaled =>
      rw [ho] at hav
      have hsig : signaled = false := hav
      subst hsig
      exact run_access (by simp [hpc, hi, ho])
    | mutex lock owner k =>
      rw [ho] at hav
      simp only [Obj.available, Bool.or_eq_false_iff, Bool.not_eq_false', decide_eq_false_iff_not]
        at hav
      refine (run_access (t := s.goto (.mutexCas i h)) ?_).trans (run_access ?_)
      · simp [hpc, hi, ho, hav.2]
      · simp [ho, hav.1]
    | semaphore count =>
      have hz : count = 0 := by
        rw [ho] at hav
        simpa [Obj.available] using hav
      exact run_access (by simp [hpc, hi, ho, hz])
    | thread => rw [ho] at hav; cases hav
    | other => rw [ho] at hkind; rw [← hkind] at hw; cases hw
  · intro e
    rw [e] at hkind
    cases ho : s.objs h with
    | event manual signaled =>
      rw [ho] at hkind hav
      simp only [Obj.kind, Kind.event.injEq] at hkind
      have hsig : signaled = false := hav
      rw [hkind, hsig]
    | _ => rw [ho] at hkind; cases hkind

/-- A poll with no help from the others. -/
theorem poll_any {s : State} {i h : Nat} (hall : c.waitAll = true) (hr : Ready objs s i)
    (hi : c.handles[i]? = some h) (hw : (objs h).kind.waitable = true) :
    ∃ s', Polls c objs s s' i h ∧ ((s.objs h).available c.me = false → s'.objs = s.objs) ∧
      (s.allSignaled = false → s'.allSignaled = false) := by
  cases hav : (s.objs h).available c.me with
  | true =>
    obtain ⟨s', hp⟩ := poll_signaled hall hr hi hav
    exact ⟨s', hp.toPolls, Bool.noConfusion, hp.allSignaled.trans⟩
  | false =>
    obtain ⟨s', hp⟩ := poll_timeout hr hi hw hav
    exact ⟨s', hp.toPolls, fun _ => hp.same, fun _ => hp.allSignaled⟩

theorem poll_helped {s : State} {i h : Nat} (hall : c.waitAll = true) (hr : Ready objs s i)
    (hi : c.handles[i]? = some h) (hw : (objs h).kind.waitable = true) :
    ∃ s', PollsSignaled c objs s s' i h := by
  obtain ⟨s₁, hrun₁, hr₁, hadj, hav⟩ := make_available (c := c) hr hw
  obtain ⟨s', hp⟩ := poll_signaled hall hr₁ hi hav
  refine ⟨s', ⟨⟨hrun₁.trans hp.run, hp.ready, hp.deadline.trans hadj.deadline, ?_, hp.unset, ?_⟩,
    hp.allSignaled.trans hadj.allSignaled, by rw [hp.taken, hadj.taken]⟩⟩
  · intro h' hne
    exact (hp.frame h' hne).trans (hadj.frame h' hne)
  · rw [← hadj.taken]
    exact hp.keeps

/-! ## A round that takes one position and misses another -/

/-- Position `k`, which names `h`, can still be missed when the call has come to position `i`. -/
def Missable (c : Call) (s : State) (k h i : Nat) : Prop :=
  match s.objs h with
  | .event manual signaled =>
      signaled = false ∨ (manual = false ∧ ∃ j, i ≤ j ∧ j < k ∧ c.handles[j]? = some h)
  | .mutex _ owner _ => owner ≠ 0 ∧ owner ≠ c.me.val
  | .semaphore _ => True
  | .thread | .other => False

theorem missable_poll {s s' : State} {i k h hk : Nat} (hr : Ready objs s i)
    (hp : Polls c objs s s' i h) (hi : c.handles[i]? = some h) (hm : Missable c s k hk i)
    (hsame : h = hk → ((s.objs h).available c.me = false → s'.objs = s.objs) ∨
      (objs h).kind = .event false ∨ (objs h).kind = .semaphore) :
    Missable c s' k hk (i + 1) := by
  by_cases hh : hk = h
  · subst hh
    have hkind := hr.kind hk
    have hkind' := hp.ready.kind hk
    unfold Missable at hm ⊢
    cases ho : s.objs hk with
    | event manual signaled =>
      rw [ho] at hm hkind
      cases manual with
      | false =>
        rw [hp.unset hkind.symm]
        exact Or.inl rfl
      | true =>
        have hsig : signaled = false := by
          rcases hm with e | ⟨e, -⟩
          · exact e
          · cases e
        rcases hsame rfl with e | e | e
        · rw [e (by rw [ho]; exact hsig), ho]
          exact Or.inl hsig
        · rw [← hkind] at e; cases e
        · rw [← hkind] at e; cases e
    | mutex lock owner r =>
      rw [ho] at hm hkind
      have hset := hr.mutex ho
      rcases hsame rfl with e | e | e
      · rw [e (by rw [ho]; simp [Obj.available, hset.mpr hm.1, hm.2]), ho]
        exact hm
      · rw [← hkind] at e; cases e
      · rw [← hkind] at e; cases e
    | semaphore count =>
      rw [ho] at hkind
      cases ho' : s'.objs hk with
      | semaphore count' => trivial
      | _ => rw [ho', ← hkind] at hkind'; cases hkind'
    | thread => rw [ho] at hm; exact hm.elim
    | other => rw [ho] at hm; exact hm.elim
  · unfold Missable at hm ⊢
    rw [hp.frame hk hh]
    cases ho : s.objs hk with
    | event manual signaled =>
      rw [ho] at hm
      rcases hm with e | ⟨e, j, h₁, h₂, h₃⟩
      · exact Or.inl e
      · refine Or.inr ⟨e, j, ?_, h₂, h₃⟩
        apply Nat.lt_of_le_of_ne h₁
        intro e'
        rw [← e', hi] at h₃
        exact hh (Option.some.inj h₃).symm
    | _ => rw [ho] at hm; exact hm

theorem poll_missed {s : State} {k hk : Nat} (hr : Ready objs s k)
    (hi : c.handles[k]? = some hk) (hw : (objs hk).kind.waitable = true)
    (hm : Missable c s k hk k) :
    ∃ s', Polls c objs s s' k hk ∧ s'.allSignaled = false := by
  unfold Missable at hm
  cases ho : s.objs hk with
  | event manual signaled =>
    rw [ho] at hm
    have hsig : signaled = false := by
      rcases hm with e | ⟨-, j, h₁, h₂, -⟩
      · exact e
      · exact absurd h₂ (Nat.not_lt.mpr h₁)
    obtain ⟨s', hp⟩ := poll_timeout hr hi hw (by rw [ho]; exact hsig)
    exact ⟨s', hp.toPolls, hp.allSignaled⟩
  | mutex lock owner r =>
    rw [ho] at hm
    have hset := hr.mutex ho
    obtain ⟨s', hp⟩ := poll_timeout hr hi hw
      (by rw [ho]; simp [Obj.available, hset.mpr hm.1, hm.2])
    exact ⟨s', hp.toPolls, hp.allSignaled⟩
  | semaphore count =>
    -- enough releases wrap the count to 0
    obtain ⟨s₁, hrun, hr₁, hadj, hobj⟩ := release_to (c := c) hr (-count).toNat count ho
    have hz : s₁.objs hk = .semaphore 0 := by
      rw [hobj, BitVec.ofNat_toNat, BitVec.setWidth_eq, BitVec.add_right_neg]
      rfl
    obtain ⟨s', hp⟩ := poll_timeout hr₁ hi hw (by rw [hz]; rfl)
    refine ⟨s', ⟨hrun.trans hp.run, hp.ready, hp.deadline.trans hadj.deadline, ?_, hp.unset, ?_⟩,
      hp.allSignaled⟩
    · intro h' hne
      exact (hp.frame h' hne).trans (hadj.frame h' hne)
    · rw [← hadj.taken]
      exact hp.keeps
  | thread => rw [ho] at hm; exact hm.elim
  | other => rw [ho] at hm; exact hm.elim

theorem bad_round {s : State} {j k hj hk : Nat} (hall : c.waitAll = true)
    (hkinds : ∀ h ∈ c.handles, (objs h).kind.waitable = true)
    (hjh : c.handles[j]? = some hj) (hc : (objs hj).kind.consumes = true)
    (hkh : c.handles[k]? = some hk) (hne : j ≠ k)
    (hmutex : (objs hk).kind = .mutex → hj = hk → k < j)
    (hr : Ready objs s 0) (hm : Missable c s k hk 0) (i : Nat) (hi : i ≤ c.handles.length) :
    ∃ s', (waitMultiple c objs).Run s s' ∧ Ready objs s' i ∧ s'.deadline = s.deadline ∧
      (j < i → j ∈ s'.taken) ∧ (k < i → s'.allSignaled = false) ∧
      (i ≤ k → Missable c s' k hk i) := by
  induction i with
  | zero => exact ⟨s, .refl, hr, rfl, fun h => absurd h (Nat.not_lt_zero _),
      fun h => absurd h (Nat.not_lt_zero _), fun _ => hm⟩
  | succ i ih =>
    obtain ⟨s₁, hrun, hr₁, hd, htaken, hmissed, hmiss⟩ := ih (Nat.le_of_succ_le hi)
    obtain ⟨h, hh⟩ : ∃ h, c.handles[i]? = some h := ⟨_, List.getElem?_eq_getElem hi⟩
    have hw := hkinds h (List.mem_of_getElem? hh)
    by_cases hij : i = j
    · subst hij
      obtain rfl : hj = h := Option.some.inj (hjh.symm.trans hh)
      obtain ⟨s', hp⟩ := poll_helped hall hr₁ hjh hw
      refine ⟨s', hrun.trans hp.run, hp.ready, hp.deadline.trans hd, ?_, ?_, ?_⟩
      · intro _
        rw [hp.taken, hc]
        exact List.mem_append_right _ (List.mem_singleton.mpr rfl)
      · intro hlt
        rw [hp.allSignaled]
        exact hmissed (Nat.lt_of_le_of_ne (Nat.le_of_lt_succ hlt) (Ne.symm hne))
      · intro hle
        refine missable_poll hr₁ hp.toPolls hjh (hmiss (Nat.le_of_succ_le hle)) ?_
        intro e
        refine Or.inr ?_
        cases hkd : (objs hj).kind with
        | event manual =>
          rw [hkd] at hc
          have hman : manual = false := by simpa [Kind.consumes] using hc
          exact Or.inl (by rw [hman])
        | mutex => exact absurd (hmutex (e ▸ hkd) e) (Nat.not_lt.mpr (Nat.le_of_succ_le hle))
        | semaphore => exact Or.inr rfl
        | thread => rw [hkd] at hc; cases hc
        | other => rw [hkd] at hc; cases hc
    · by_cases hik : i = k
      · subst hik
        obtain rfl : hk = h := Option.some.inj (hkh.symm.trans hh)
        obtain ⟨s', hp, hfalse⟩ := poll_missed hr₁ hkh hw (hmiss (Nat.le_refl _))
        refine ⟨s', hrun.trans hp.run, hp.ready, hp.deadline.trans hd, ?_, fun _ => hfalse, ?_⟩
        · intro hlt
          exact hp.keeps j (htaken (Nat.lt_of_le_of_ne (Nat.le_of_lt_succ hlt) hne))
        · intro hle
          exact absurd hle (Nat.not_succ_le_self _)
      · obtain ⟨s', hp, hsame, hfalse⟩ := poll_any hall hr₁ hh hw
        refine ⟨s', hrun.trans hp.run, hp.ready, hp.deadline.trans hd, ?_, ?_, ?_⟩
        · intro hlt
          exact hp.keeps j (htaken (Nat.lt_of_le_of_ne (Nat.le_of_lt_succ hlt) (Ne.symm hij)))
        · intro hlt
          exact hfalse (hmissed (Nat.lt_of_le_of_ne (Nat.le_of_lt_succ hlt) (Ne.symm hik)))
        · intro hle
          exact missable_poll hr₁ hp hh (hmiss (Nat.le_of_succ_le hle)) fun _ => Or.inl hsame

theorem good_round {s : State} {j hj : Nat} (hall : c.waitAll = true)
    (hkinds : ∀ h ∈ c.handles, (objs h).kind.waitable = true)
    (hjh : c.handles[j]? = some hj) (hc : (objs hj).kind.consumes = true)
    (hr : Ready objs s 0) (i : Nat) (hi : i ≤ c.handles.length) :
    ∃ s', (waitMultiple c objs).Run s s' ∧ Ready objs s' i ∧ s'.allSignaled = s.allSignaled ∧
      s.taken.count j + (if j < i then 1 else 0) ≤ s'.taken.count j := by
  induction i with
  | zero => exact ⟨s, .refl, hr, rfl, Nat.le_refl _⟩
  | succ i ih =>
    obtain ⟨s₁, hrun, hr₁, ha, hcount⟩ := ih (Nat.le_of_succ_le hi)
    obtain ⟨h, hh⟩ : ∃ h, c.handles[i]? = some h := ⟨_, List.getElem?_eq_getElem hi⟩
    obtain ⟨s', hp⟩ := poll_helped hall hr₁ hh (hkinds h (List.mem_of_getElem? hh))
    refine ⟨s', hrun.trans hp.run, hp.ready, hp.allSignaled.trans ha, ?_⟩
    rw [hp.taken, List.count_append]
    by_cases hij : i = j
    · subst hij
      obtain rfl : hj = h := Option.some.inj (hjh.symm.trans hh)
      rw [if_neg (Nat.lt_irrefl i)] at hcount
      rw [if_pos (Nat.lt_succ_self i), hc, if_pos rfl, List.count_singleton_self]
      omega
    · have hiff : (j < i + 1) = (j < i) := by
        apply propext
        constructor
        · intro hlt
          exact Nat.lt_of_le_of_ne (Nat.le_of_lt_succ hlt) (Ne.symm hij)
        · exact Nat.lt_succ_of_lt
      simp only [hiff]
      omega

/-! ## The two ways to break the promise -/

/-- The state in which the call begins. -/
def called (objs : Nat → Obj) : State := ⟨objs, 0, none, true, .start, fun _ => .idle, []⟩

theorem called_poll (objs : Nat → Obj) (hne : c.handles ≠ []) (hsettled : ∀ h, (objs h).settled) :
    ∃ s, (waitMultiple c objs).Reachable s ∧ Ready objs s 0 ∧ s.objs = objs := by
  have hstart : (waitMultiple c objs).Reachable (called objs) :=
    .start ⟨rfl, rfl, fun _ => rfl, rfl⟩
  refine ⟨{ called objs with
      deadline := if c.ms = infinite then none else some (0 + c.ms * 1000000), pc := .poll 0 },
    hstart.step (a := .access) trivial ?_, ⟨rfl, fun _ => rfl, fun _ => rfl, hsettled⟩, rfl⟩
  simp only [waitMultiple, State.next, State.access, called, if_neg hne]

theorem bad_schedule {j k hj hk : Nat} (hall : c.waitAll = true)
    (hkinds : ∀ h ∈ c.handles, (objs h).kind.waitable = true)
    (hsettled : ∀ h, (objs h).settled)
    (hjh : c.handles[j]? = some hj) (hc : (objs hj).kind.consumes = true)
    (hf : MayFailAt c objs k) (hkh : c.handles[k]? = some hk) (hne : j ≠ k)
    (hmutex : (objs hk).kind = .mutex → hj = hk → k < j) : ¬ AllOrNothing c objs := by
  intro hgood
  have hjlt : j < c.handles.length := (List.getElem?_eq_some_iff.mp hjh).1
  have hklt : k < c.handles.length := (List.getElem?_eq_some_iff.mp hkh).1
  have hnil : c.handles ≠ [] := fun e => by rw [e] at hjlt; exact Nat.not_lt_zero _ hjlt
  obtain ⟨s₀, hreach, hr, hobjs⟩ := called_poll objs hnil hsettled
  have hmiss : Missable c s₀ k hk 0 := by
    obtain ⟨h, hh, hm⟩ := hf
    obtain rfl : hk = h := Option.some.inj (hkh.symm.trans hh)
    unfold Missable
    rw [hobjs]
    cases ho : objs hk with
    | event manual signaled =>
      rw [ho] at hm
      rcases hm with e | ⟨e, i, h₁, h₂⟩
      · exact Or.inl e
      · exact Or.inr ⟨e, i, Nat.zero_le _, h₁, h₂⟩
    | _ => rw [ho] at hm; exact hm
  obtain ⟨s₁, hrun, hr₁, -, htaken, hmissed, -⟩ :=
    bad_round hall hkinds hjh hc hkh hne hmutex hr hmiss c.handles.length (Nat.le_refl _)
  have htaken := htaken hjlt
  have hmissed := hmissed hklt
  have hend : c.handles[c.handles.length]? = none := List.getElem?_eq_none (Nat.le_refl _)
  have hcheck : (waitMultiple c objs).next s₁ .access = some (s₁.goto .check) := by
    simp only [waitMultiple, State.next, State.access, hr₁.pc, hend, hmissed, Bool.and_false,
      if_false, Bool.false_eq_true]
  have hreach₁ := (hreach.run hrun).step trivial hcheck
  cases hd : s₁.deadline with
  | some d =>
    -- the clock passes the deadline: `WAIT_TIMEOUT`, with position `j` kept
    have htick : (waitMultiple c objs).next (s₁.goto .check) (.tick d) =
        some { s₁ with clock := s₁.clock + d, pc := .check } := rfl
    have hreturn : (waitMultiple c objs).next { s₁ with clock := s₁.clock + d, pc := .check }
        .access = some { s₁ with clock := s₁.clock + d, pc := .returned .timeout } := by
      simp only [waitMultiple, State.next, State.access, hd, State.goto, Nat.le_add_left, if_true]
    have hnone := (hgood _ ((hreach₁.step trivial htick).step trivial hreturn)).1 (Or.inl rfl)
    rw [show s₁.taken = [] from hnone] at htaken
    exact absurd htaken List.not_mem_nil
  | none =>
    -- a second round takes position `j` again
    have hsleep : (waitMultiple c objs).next (s₁.goto .check) .access =
        some (s₁.goto .sleep) := by
      simp only [waitMultiple, State.next, State.access, State.goto, hd]
    have hagain : (waitMultiple c objs).next (s₁.goto .sleep) .access =
        some { s₁ with allSignaled := true, pc := .poll 0 } := rfl
    have hreach₂ : (waitMultiple c objs).Reachable { s₁ with allSignaled := true, pc := .poll 0 } :=
      (hreach₁.step trivial hsleep).step trivial hagain
    have hr₂ : Ready objs { s₁ with allSignaled := true, pc := .poll 0 } 0 :=
      ⟨rfl, hr₁.idle, hr₁.kind, hr₁.settled⟩
    obtain ⟨s₂, hrun₂, hr₂, ha, hcount⟩ :=
      good_round hall hkinds hjh hc hr₂ c.handles.length (Nat.le_refl _)
    have hreturn : (waitMultiple c objs).next s₂ .access =
        some (s₂.goto (.returned (.object 0))) := by
      simp only [waitMultiple, State.next, State.access, hr₂.pc, hend, hall, ha, Bool.and_true,
        if_true]
    have hone := (hgood _ ((hreach₂.run hrun₂).step trivial hreturn)).2 0 rfl j hj hjh
    rw [hc, if_pos rfl] at hone
    rw [if_pos hjlt, show s₂.taken.count j = 1 from hone] at hcount
    have hpos : 0 < s₁.taken.count j := List.count_pos_iff.mpr htaken
    have : s₁.taken.count j + 1 ≤ 1 := hcount
    omega

theorem compatible_of_allOrNothing (hall : c.waitAll = true)
    (hkinds : ∀ h ∈ c.handles, (objs h).kind.waitable = true)
    (hsettled : ∀ h, (objs h).settled) (hgood : AllOrNothing c objs) : Compatible c objs := by
  intro j k hj hf
  obtain ⟨hj, hjh, hc⟩ := hj
  obtain ⟨hk, hkh, hm⟩ := hf
  by_contra hne
  by_cases hmutex : (objs hk).kind = .mutex → hj = hk → k < j
  · exact bad_schedule hall hkinds hsettled hjh hc ⟨hk, hkh, hm⟩ hkh hne hmutex hgood
  · -- two positions of one mutex, the consumed one first: let the first be missed instead
    obtain ⟨hmx, e, hlt⟩ : (objs hk).kind = .mutex ∧ hj = hk ∧ ¬ k < j := by
      simpa only [Classical.not_imp] using hmutex
    subst e
    refine bad_schedule hall hkinds hsettled hkh hc ⟨hj, hjh, ?_⟩ hjh (Ne.symm hne) ?_ hgood
    · cases ho : objs hj with
      | mutex lock owner r => rw [ho] at hm; exact hm
      | _ => rw [ho] at hmx; cases hmx
    · intro _ _
      exact Nat.lt_of_le_of_ne (Nat.not_lt.mp hlt) hne

/-- **When `bWaitAll` is all-or-nothing.** From an incompatible pair a schedule is built that lets
    the wait consume one object and then fail at the other; without one, `WaitMultiple` keeps its
    invariant. -/
theorem wait_all_iff_compatible (c : Call) (objs : Nat → Obj) (hall : c.waitAll = true)
    (hkinds : ∀ h ∈ c.handles, (objs h).kind.waitable = true)
    (hsettled : ∀ h, (objs h).settled) :
    AllOrNothing c objs ↔
      ∀ j k, ConsumesAt c objs j → MayFailAt c objs k → j = k :=
  ⟨compatible_of_allOrNothing hall hkinds hsettled,
    fun hcompat => allOrNothing_of_compatible hcompat hall hkinds hsettled⟩

/-- Handle 0 is an auto-reset event that is set, handle 1 a manual-reset event that is not. -/
def twoEvents : Nat → Obj
  | 0 => .event false true
  | 1 => .event true false
  | _ => .thread

/-- An auto-reset and a manual-reset event that are set, and a mutex that is free. -/
def threeSignalled : Nat → Obj
  | 0 => .event false true
  | 1 => .event true true
  | 2 => .mutex false 0 0
  | _ => .thread

/-- The call takes the first event and the mutex, or neither: no schedule finds one of the three
    not signalled. -/
theorem wait_all_iff_compatible_three :
    AllOrNothing ⟨[0, 1, 2], true, infinite, ⟨1, by decide⟩⟩ threeSignalled := by
  refine (wait_all_iff_compatible ⟨[0, 1, 2], true, infinite, ⟨1, by decide⟩⟩ threeSignalled rfl
    (by decide) ?_).mpr ?_
  · intro h
    match h with
    | 0 | 1 | _ + 3 => trivial
    | 2 => exact ⟨nofun, fun hne => absurd rfl hne⟩
  · intro j k hj hk
    obtain ⟨h, hk, hfail⟩ := hk
    match k with
    | 0 =>
      cases hk
      obtain hset | ⟨-, i, hi, -⟩ := hfail
      · cases hset
      · exact absurd hi (Nat.not_lt_zero i)
    | 1 =>
      cases hk
      obtain hset | ⟨hauto, -⟩ := hfail
      · cases hset
      · cases hauto
    | 2 =>
      cases hk
      exact absurd rfl hfail.1
    | _ + 3 => cases hk

/-- On both events with timeout 0 the call consumes the first and answers `WAIT_TIMEOUT`. -/
theorem wait_all_keeps_signal :
    ¬ AllOrNothing ⟨[0, 1], true, 0, ⟨1, by decide⟩⟩ twoEvents := by
  intro hgood
  have hrun : ∃ s, (waitMultiple ⟨[0, 1], true, 0, ⟨1, by decide⟩⟩ twoEvents).exec
      (called twoEvents) [.access, .access, .access, .access, .access, .access] = some s ∧
        s.pc = .returned .timeout ∧ s.taken = [0] := ⟨_, rfl, rfl, rfl⟩
  obtain ⟨s, hexec, hpc, htaken⟩ := hrun
  have hinit : (waitMultiple ⟨[0, 1], true, 0, ⟨1, by decide⟩⟩ twoEvents).init
      (called twoEvents) := ⟨rfl, rfl, fun _ => rfl, rfl⟩
  have hreach := Machine.reachable_of_exec hinit hexec
  have hnone := (hgood s hreach).1 (Or.inl hpc)
  rw [htaken] at hnone
  cases hnone

end WinCompat.Sync.WaitMultiple
