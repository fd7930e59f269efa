import WinCompat.Gpu.Com

/-!
# COM references are counted for the guest only

The count of an object is the number of references that the guest has (`Inv.ok`): nothing that is
stored in another object is counted. So an object goes exactly when the guest lets go of it, and
counting is sound as long as the guest never lets go of what a live object still refers to
(`counting_sound`).
-/

namespace WinCompat.Gpu.Com

open Lib Lib.Fallible
open D3d11 (DeviceContext RenderTargetView Resource Shader Context vkErr)

/-! ## What an operation binds -/

/-- Nothing else is bound. -/
def Within (l : List Native) (c : DeviceContext) : Prop :=
  (∀ m ∈ c.vs, .module m ∈ l) ∧ (∀ m ∈ c.ps, .module m ∈ l) ∧
    (∀ b ∈ c.vertexBuffer, .buffer b ∈ l) ∧ (∀ b ∈ c.indexBuffer, .buffer b ∈ l) ∧
    ∀ t ∈ c.target, .view t.framebuffer.attachment.id ∈ l

def binds : D3d11.Op → List Native
  | .omSetRenderTargets rtv _ => [.view rtv.view.id]
  | .vsSetShader shader | .psSetShader shader => [.module shader.module]
  | .iaSetVertexBuffers buffer _ | .iaSetIndexBuffer buffer _ _ => [.buffer buffer.buffer]
  | _ => []

section Binding

variable {l : List Native}

theorem within_iff {c : DeviceContext} : Within l c ↔ ∀ n ∈ bound c, n ∈ l := by
  simp [Within, bound, or_imp, forall_and]

theorem Within.takeTarget {c : DeviceContext} (h : Within l c) : Within l c.takeTarget := by
  unfold DeviceContext.takeTarget
  obtain ⟨hvs, hps, hvb, hib, -⟩ := h
  cases htarget : c.target with
  | none => exact ⟨hvs, hps, hvb, hib, fun t ht => by simp [htarget] at ht⟩
  | some t => exact ⟨hvs, hps, hvb, hib, fun t ht => absurd ht (by simp [DeviceContext.destroy])⟩

theorem closed_within : DeviceContext.Closed (Within l) :=
  ⟨fun _ h => h, fun _ h => h, fun _ h => h.takeTarget, fun _ _ h => h⟩

theorem keeps_flush (o : DeviceContext.Flushing) : Keeps (Within l) (DeviceContext.flush o) := by
  apply keeps_get
  intro c h
  cases hrecording : c.recording with
  | false =>
    simp only [Bool.not_false, if_true]
    exact h
  | true =>
    have hrest : Keeps (Within l) (do
        check (vkErr o.finish)
        check (vkErr o.fence)
        check (vkErr o.submit)
        modify fun c => c.log (.submitted c.commandBuffer)
        check (vkErr o.wait)
        modify fun c => c.log .waited
        check (vkErr o.reset)
        modify fun c => { c with commandBuffer := [], recording := false, drew := false }) := by
      refine Keeps.bind (keeps_check _) fun _ => ?_
      refine Keeps.bind (keeps_check _) fun _ => ?_
      refine Keeps.bind (keeps_check _) fun _ => ?_
      refine Keeps.bind (keeps_modify fun c h => h) fun _ => ?_
      refine Keeps.bind (keeps_check _) fun _ => ?_
      refine Keeps.bind (keeps_modify fun c h => h) fun _ => ?_
      refine Keeps.bind (keeps_check _) fun _ => ?_
      exact keeps_modify fun c h => h
    exact hrest c h

/-- A binding that is made only if the kind is right. -/
theorem keeps_bind {p : Prop} [Decidable p] {f : DeviceContext → DeviceContext}
    (hf : ∀ c, Within l c → Within l (f c)) :
    Keeps (Within l) (modify fun c => if p then f c else c : Context Unit) := by
  apply keeps_modify
  intro c h
  by_cases hp : p
  · rw [if_pos hp]
    exact hf c h
  · rw [if_neg hp]
    exact h

theorem keeps_run (op : D3d11.Op) (hl : ∀ n ∈ binds op, n ∈ l) : Keeps (Within l) op.run := by
  cases op with
  | omSetRenderTargets rtv o =>
    refine closed_within.omSetRenderTargets rtv o fun c t ht ⟨hvs, hps, hvb, hib, _⟩ => ?_
    refine ⟨hvs, hps, hvb, hib, ?_⟩
    rintro t' ⟨⟩
    exact ht ▸ hl _ List.mem_cons_self
  | clearRenderTargetView rtv color begin =>
    exact Keeps.bind (closed_within.beginRecording _) fun _ => keeps_modify fun c h => h
  | draw vertexCount rasterizer o =>
    exact closed_within.drawInternal _ _ _ _ _ _ fun _ _ _ h => h
  | drawIndexed indexCount vertexOffset rasterizer o =>
    exact keeps_get fun c h => closed_within.drawInternal _ _ _ _ _ _ (fun _ _ _ h => h) c h
  | flush o => exact keeps_flush o
  | vsSetShader shader =>
    apply keeps_bind
    intro c ⟨_, hps, hvb, hib, ht⟩
    refine ⟨?_, hps, hvb, hib, ht⟩
    intro m hm
    cases hm
    exact hl _ List.mem_cons_self
  | psSetShader shader =>
    apply keeps_bind
    intro c ⟨hvs, _, hvb, hib, ht⟩
    refine ⟨hvs, ?_, hvb, hib, ht⟩
    intro m hm
    cases hm
    exact hl _ List.mem_cons_self
  | iaSetVertexBuffers buffer offset =>
    apply keeps_bind
    intro c ⟨hvs, hps, _, hib, ht⟩
    refine ⟨hvs, hps, ?_, hib, ht⟩
    intro b hb
    cases hb
    exact hl _ List.mem_cons_self
  | iaSetIndexBuffer buffer offset type =>
    apply keeps_bind
    intro c ⟨hvs, hps, hvb, _, ht⟩
    refine ⟨hvs, hps, hvb, ?_, ht⟩
    intro b hb
    cases hb
    exact hl _ List.mem_cons_self

theorem bound_step (c : DeviceContext) (op : D3d11.Op) :
    ∀ n ∈ bound (c.step op), n ∈ bound c ∨ n ∈ binds op := by
  intro n hn
  have hwithin : Within (bound c ++ binds op) (c.step op) :=
    keeps_run op (fun n hn => List.mem_append_right _ hn) c
      (within_iff.mpr fun n hn => List.mem_append_left _ hn)
  exact List.mem_append.mp (within_iff.mp hwithin n hn)

end Binding

/-! ## The invariant -/

/-- An object that is live: the guest has as many references as it counts. -/
structure Live (s : Store) (a : Addr) (o : Object) : Prop where
  count : o.refcount.toNat = s.held a
  positive : 0 < s.held a
  ids : ∀ n ∈ o.inner.owns, n.id < s.nextNative
  pointers : ∀ b ∈ o.inner.pointers, (s.heap b).isSome
  natives : ∀ n ∈ o.inner.holds, s.Exists n

/-- Each count is the number of references, and whatever a live object refers to is there. -/
structure Inv (s : Store) : Prop where
  noFault : s.fault = false
  live : ∀ a o, s.heap a = some o → Live s a o
  gone : ∀ a, s.heap a = none → s.held a = 0
  fresh : ∀ a, s.next ≤ a → s.heap a = none
  /-- Every Vulkan object has one owner. -/
  distinct : ∀ a b o o' n, s.heap a = some o → s.heap b = some o' → n ∈ o.inner.owns →
    n ∈ o'.inner.owns → a = b

variable {s s' : Store} {a b : Addr} {o o' : Object} {x : Option Object} {n : Native}

section Update

variable (hheap : s'.heap = Function.update s.heap a x)

include hheap

theorem heap_self : s'.heap a = x := by
  rw [hheap, Function.update_self]

theorem heap_ne (h : b ≠ a) : s'.heap b = s.heap b := by
  rw [hheap, Function.update_of_ne h]

theorem isSome_update (h : (s.heap b).isSome) (hx : b = a → x.isSome) : (s'.heap b).isSome := by
  by_cases hb : b = a
  · rw [hb, heap_self hheap]
    exact hx hb
  · rw [heap_ne hheap hb]
    exact h

theorem exists_update (h : s.Exists n)
    (hx : ∀ o, s.heap a = some o → n ∈ o.inner.owns → ∃ o', x = some o' ∧ n ∈ o'.inner.owns) :
    s'.Exists n := by
  obtain ⟨b, o, hb, hn⟩ := h
  by_cases hba : b = a
  · subst hba
    obtain ⟨o', ho', hn'⟩ := hx o hb hn
    exact ⟨b, o', (heap_self hheap).trans ho', hn'⟩
  · exact ⟨b, o, (heap_ne hheap hba).trans hb, hn⟩

/-- The step lemma: one address is written, and the other objects keep what they refer to. -/
theorem Inv.update (h : Inv s) (hheld : ∀ b, b ≠ a → s'.held b = s.held b)
    (hfault : s'.fault = s.fault) (hnext : s.next ≤ s'.next) (ha : a < s'.next)
    (hnative : s.nextNative ≤ s'.nextNative) (hlive : ∀ o, x = some o → Live s' a o)
    (hgone : x = none → s'.held a = 0)
    (howns : ∀ o, x = some o → ∀ n ∈ o.inner.owns,
      s.nextNative ≤ n.id ∨ ∃ o', s.heap a = some o' ∧ n ∈ o'.inner.owns)
    (hothers : ∀ b o', b ≠ a → s.heap b = some o' →
      (∀ c ∈ o'.inner.pointers, (s'.heap c).isSome) ∧ ∀ n ∈ o'.inner.holds, s'.Exists n) :
    Inv s' := by
  have hself := heap_self hheap
  -- no other object owns what the written one does
  have hapart : ∀ b o o' n, b ≠ a → s'.heap a = some o → s'.heap b = some o' →
      n ∈ o.inner.owns → n ∉ o'.inner.owns := by
    intro b o o' n hba ho ho' hn hn'
    rw [hself] at ho
    rw [heap_ne hheap hba] at ho'
    rcases howns o ho n hn with hnew | ⟨o₀, ho₀, hold⟩
    · exact absurd ((h.live b o' ho').ids n hn') (Nat.not_lt_of_le hnew)
    · exact hba (h.distinct b a o' o₀ n ho' ho₀ hn' hold)
  constructor
  · rw [hfault, h.noFault]
  · intro b o' hb
    by_cases hba : b = a
    · subst hba
      rw [hself] at hb
      exact hlive o' hb
    · rw [heap_ne hheap hba] at hb
      obtain ⟨hpointers, hnatives⟩ := hothers b o' hba hb
      have hold := h.live b o' hb
      refine ⟨?_, ?_, ?_, hpointers, hnatives⟩
      · rw [hheld b hba, hold.count]
      · rw [hheld b hba]
        exact hold.positive
      · exact fun n hn => Nat.lt_of_lt_of_le (hold.ids n hn) hnative
  · intro b hb
    by_cases hba : b = a
    · subst hba
      rw [hself] at hb
      exact hgone hb
    · rw [heap_ne hheap hba] at hb
      rw [hheld b hba, h.gone b hb]
  · intro b hb
    have hba : b ≠ a := Nat.ne_of_gt (Nat.lt_of_lt_of_le ha hb)
    rw [heap_ne hheap hba]
    exact h.fresh b (Nat.le_trans hnext hb)
  · intro b c o o' n hb hc hn hn'
    by_cases hba : b = a
    · by_cases hca : c = a
      · exact hba.trans hca.symm
      · exact absurd hn' (hapart c o o' n hca (hba ▸ hb) hc hn)
    · by_cases hca : c = a
      · exact absurd hn (hapart b o' o n hba (hca ▸ hc) hb hn')
      · rw [heap_ne hheap hba] at hb
        rw [heap_ne hheap hca] at hc
        exact h.distinct b c o o' n hb hc hn hn'

end Update

theorem Inv.lt_next (h : Inv s) (ha : s.heap a = some o) : a < s.next := by
  rw [← Nat.not_le]
  intro hle
  rw [h.fresh a hle] at ha
  cases ha

/-! ## Each kind of step -/

/-- A write that keeps what the object owned, if there was one: whatever the others refer to still
    exists. -/
theorem Inv.put (h : Inv s) {s' : Store} {o' : Object}
    (hheap : s'.heap = Function.update s.heap a (some o'))
    (hheld : ∀ b, b ≠ a → s'.held b = s.held b) (hfault : s'.fault = s.fault)
    (hnext : s.next ≤ s'.next) (ha : a < s'.next) (hnative : s.nextNative ≤ s'.nextNative)
    (hkeeps : ∀ o, s.heap a = some o → ∀ n ∈ o.inner.owns, n ∈ o'.inner.owns)
    (hcount : o'.refcount.toNat = s'.held a) (hpositive : 0 < s'.held a)
    (hids : ∀ n ∈ o'.inner.owns, n.id < s'.nextNative)
    (hpointers : ∀ b ∈ o'.inner.pointers, (s.heap b).isSome)
    (hholds : ∀ n ∈ o'.inner.holds, s.Exists n)
    (howns : ∀ n ∈ o'.inner.owns,
      s.nextNative ≤ n.id ∨ ∃ o, s.heap a = some o ∧ n ∈ o.inner.owns) : Inv s' := by
  have hsome : ∀ b, (s.heap b).isSome → (s'.heap b).isSome :=
    fun b hb => isSome_update hheap hb fun _ => rfl
  have hexists : ∀ n, s.Exists n → s'.Exists n := by
    intro n hn
    exact exists_update hheap hn fun o ho hn => ⟨o', rfl, hkeeps o ho n hn⟩
  apply h.update hheap hheld hfault hnext ha hnative
  · intro o ho
    cases ho
    exact ⟨hcount, hpositive, hids, fun b hb => hsome b (hpointers b hb),
      fun n hn => hexists n (hholds n hn)⟩
  · intro hnone
    cases hnone
  · intro o ho
    cases ho
    exact howns
  · intro b o _ hb
    have hother := h.live b o hb
    exact ⟨fun c hc => hsome c (hother.pointers c hc), fun n hn => hexists n (hother.natives n hn)⟩

theorem Inv.recount (h : Inv s) (ha : s.heap a = some o) {count : BitVec 32} {k : Nat}
    (hcount : count.toNat = k) (hk : 0 < k) :
    Inv ((s.set a (some { o with refcount := count })).hold a k) := by
  have hold := h.live a o ha
  have hheld : ((s.set a (some { o with refcount := count })).hold a k).held a = k :=
    Function.update_self ..
  refine h.put rfl (fun b hb => Function.update_of_ne hb ..) rfl (Nat.le_refl _) (h.lt_next ha)
    (Nat.le_refl _) ?_ (hcount.trans hheld.symm) (hheld.symm ▸ hk) hold.ids hold.pointers
    hold.natives fun n hn => Or.inr ⟨o, ha, hn⟩
  intro o' ho' n hn
  cases ha.symm.trans ho'
  exact hn

theorem Inv.free (h : Inv s) (ha : s.heap a = some o)
    (hfree : ∀ b o', b ≠ a → s.heap b = some o' → ¬ o'.inner.RefersTo a o.inner) :
    Inv ((s.set a none).hold a 0) := by
  have hheap : ((s.set a none).hold a 0).heap = Function.update s.heap a none := rfl
  apply h.update hheap
  · exact fun b hb => Function.update_of_ne hb ..
  · rfl
  · exact Nat.le_refl _
  · exact h.lt_next ha
  · exact Nat.le_refl _
  · intro o' ho'
    cases ho'
  · exact fun _ => Function.update_self ..
  · intro o' ho'
    cases ho'
  · intro b o' hba hb
    have hother := h.live b o' hb
    have hnot := hfree b o' hba hb
    constructor
    · intro c hc
      apply isSome_update hheap (hother.pointers c hc)
      rintro rfl
      exact absurd (Or.inl hc) hnot
    · intro n hn
      apply exists_update hheap (hother.natives n hn)
      intro o'' ho'' hn'
      cases ha.symm.trans ho''
      exact absurd (Or.inr ⟨n, hn, hn'⟩) hnot

theorem Inv.create (h : Inv s) (inner : Inner) (natives : Nat)
    (hpointers : ∀ b ∈ inner.pointers, (s.heap b).isSome) (hholds : ∀ n ∈ inner.holds, s.Exists n)
    (howns : ∀ n ∈ inner.owns, s.nextNative ≤ n.id ∧ n.id < s.nextNative + natives) :
    Inv (s.create inner natives) := by
  have hnone := h.fresh s.next (Nat.le_refl _)
  have hheld : (s.create inner natives).held s.next = 1 := by
    show Function.update s.held s.next (s.held s.next + 1) s.next = 1
    rw [Function.update_self, h.gone s.next hnone]
  refine h.put rfl (fun b hb => Function.update_of_ne hb ..) rfl (Nat.le_succ _)
    (Nat.lt_succ_self _) (Nat.le_add_right _ _) ?_ hheld.symm (hheld.symm ▸ Nat.one_pos)
    (fun n hn => (howns n hn).2) hpointers hholds fun n hn => Or.inl (howns n hn).1
  intro o ho
  cases hnone.symm.trans ho

theorem Inv.setContext (h : Inv s) {c c' : DeviceContext} (ha : s.heap a = some o)
    (ho : o.inner = .context c) (hbound : ∀ n ∈ bound c', s.Exists n) :
    Inv (s.set a (some { o with inner := .context c' })) := by
  have hold := h.live a o ha
  refine h.put rfl (fun _ _ => rfl) rfl (Nat.le_refl _) (h.lt_next ha) (Nat.le_refl _) ?_
    hold.count hold.positive (fun n hn => by cases hn) (fun b hb => by cases hb) hbound
    fun n hn => by cases hn
  intro o' ho' n hn
  cases ha.symm.trans ho'
  rw [ho] at hn
  cases hn

theorem Inv.resize (h : Inv s) (ha : s.heap a = some o) (count : Nat)
    (hfree : ∀ b o', s.heap b = some o' → ∀ n ∈ o'.inner.holds, n ∉ o.inner.owns) :
    Inv { s.set a (some { o with inner := .swapChain (List.range' s.nextNative count) }) with
      nextNative := s.nextNative + count } := by
  generalize hs' : ({ s.set a (some { o with
    inner := .swapChain (List.range' s.nextNative count) }) with
      nextNative := s.nextNative + count } : Store) = s'
  have hheap : s'.heap = Function.update s.heap a
      (some { o with inner := .swapChain (List.range' s.nextNative count) }) := by
    rw [← hs']
    rfl
  have hheld : s'.held = s.held := by rw [← hs']; rfl
  have hsome : ∀ b, (s.heap b).isSome → (s'.heap b).isSome :=
    fun b hb => isSome_update hheap hb fun _ => rfl
  have hexists : ∀ b o', s.heap b = some o' → ∀ n ∈ o'.inner.holds, s'.Exists n := by
    intro b o' hb n hn
    apply exists_update hheap ((h.live b o' hb).natives n hn)
    intro o'' ho'' hn'
    cases ha.symm.trans ho''
    exact absurd hn' (hfree b o' hb n hn)
  have hids : ∀ n ∈ (Inner.swapChain (List.range' s.nextNative count)).owns,
      s.nextNative ≤ n.id ∧ n.id < s.nextNative + count := by
    intro n hn
    obtain ⟨i, hi, rfl⟩ := List.mem_map.mp hn
    exact List.mem_range'_1.mp hi
  have hold := h.live a o ha
  apply h.update hheap
  · exact fun b _ => congrFun hheld b
  · rw [← hs']
    rfl
  · rw [← hs']
    exact Nat.le_refl _
  · rw [← hs']
    exact h.lt_next ha
  · rw [← hs']
    exact Nat.le_add_right _ _
  · intro o' ho'
    cases ho'
    refine ⟨hold.count.trans (congrFun hheld a).symm, ?_, ?_, fun b hb => (by cases hb),
      fun n hn => (by cases hn)⟩
    · rw [hheld]
      exact hold.positive
    · intro n hn
      rw [← hs']
      exact (hids n hn).2
  · intro hnone
    cases hnone
  · intro o' ho' n hn
    cases ho'
    exact Or.inl (hids n hn).1
  · intro b o' _ hb
    have hother := h.live b o' hb
    exact ⟨fun c hc => hsome c (hother.pointers c hc), hexists b o' hb⟩

/-! ## Each call -/

theorem Inv.object (h : Inv s) (ha : 0 < s.held a) : ∃ o, s.heap a = some o := by
  apply Option.ne_none_iff_exists'.mp
  intro hnone
  rw [h.gone a hnone] at ha
  exact absurd ha (Nat.lt_irrefl 0)

theorem onObject_some {f : Object → Option Store} (ha : s.heap a = some o) :
    s.onObject a f = f o := by
  unfold Store.onObject
  rw [ha]

theorem Inv.addRef (h : Inv s) (ha : s.heap a = some o) (hmax : o.refcount ≠ BitVec.allOnes 32)
    (hn : s.addRef a = some s') : Inv s' := by
  unfold Store.addRef at hn
  rw [onObject_some ha] at hn
  cases hn
  have hlt : o.refcount.toNat + 1 < 2 ^ 32 := by
    have hne : o.refcount.toNat ≠ 2 ^ 32 - 1 := fun heq => hmax (BitVec.eq_of_toNat_eq (by simp [heq]))
    omega
  apply h.recount ha
  · rw [← (h.live a o ha).count, BitVec.toNat_add]
    exact Nat.mod_eq_of_lt hlt
  · exact Nat.succ_pos _

theorem Inv.release (h : Inv s) (ha : s.heap a = some o)
    (hcareful : o.refcount = 1 → ∀ b o', b ≠ a → s.heap b = some o' →
      ¬ o'.inner.RefersTo a o.inner)
    (hn : s.release a = some s') : Inv s' := by
  unfold Store.release at hn
  rw [onObject_some ha] at hn
  have hold := h.live a o ha
  have hcount := hold.count
  have hpositive := hold.positive
  simp only [Option.some.injEq] at hn
  rw [← hn]
  by_cases hlast : o.refcount = 1
  · have hheld : s.held a - 1 = 0 := by
      rw [← hcount, hlast]
      rfl
    rw [hlast, if_pos (by decide), hheld]
    exact h.free ha (hcareful hlast)
  · have hnew : o.refcount - 1 ≠ 0 := by
      intro hzero
      exact hlast (BitVec.eq_of_toNat_eq (by bv_omega))
    rw [if_neg hnew]
    apply h.recount ha
    · rw [← hcount]
      bv_omega
    · have hne : s.held a ≠ 1 := by
        rw [← hcount]
        exact fun heq => hlast (BitVec.eq_of_toNat_eq heq)
      omega

theorem Inv.createDevice (h : Inv s) : Inv s.createDevice := by
  have hcontext : Inv (s.create (.context { device := {} }) 0) := by
    apply h.create
    · exact fun b hb => by cases hb
    · exact fun n hn => by cases hn
    · exact fun n hn => by cases hn
  apply hcontext.create
  · intro b hb
    rw [List.mem_singleton.mp hb]
    show (Function.update s.heap s.next _ s.next).isSome
    rw [Function.update_self]
    rfl
  · exact fun n hn => by cases hn
  · exact fun n hn => by cases hn

theorem Inv.createShell (h : Inv s) {inner : Inner} (hpointers : inner.pointers = [])
    (hholds : inner.holds = []) (howns : inner.owns = []) : Inv (s.create inner 0) := by
  apply h.create
  · rw [hpointers]
    exact fun b hb => absurd hb List.not_mem_nil
  · rw [hholds]
    exact fun n hn => absurd hn List.not_mem_nil
  · rw [howns]
    exact fun n hn => absurd hn List.not_mem_nil

theorem Inv.createDeviceAndSwapChain (h : Inv s) (images : Nat) :
    Inv (s.createDeviceAndSwapChain images) := by
  apply h.createDevice.create
  · exact fun b hb => by cases hb
  · exact fun n hn => by cases hn
  · intro n hn
    obtain ⟨i, hi, rfl⟩ := List.mem_map.mp hn
    exact List.mem_range'_1.mp hi

theorem Inv.getBuffer (h : Inv s) (ha : 0 < s.held a) {index : Nat}
    (hn : s.getBuffer a index = some s') : Inv s' := by
  obtain ⟨o, ho⟩ := h.object ha
  unfold Store.getBuffer at hn
  rw [onObject_some ho] at hn
  split at hn
  · rename_i images hinner
    split at hn
    · cases hn
      exact h
    · rename_i image himage
      cases hn
      apply h.create
      · exact fun b hb => by cases hb
      · intro n hn
        rw [List.mem_singleton.mp hn]
        refine ⟨a, o, ho, ?_⟩
        rw [hinner]
        exact List.mem_map_of_mem (List.mem_of_getElem? himage)
      · exact fun n hn => by cases hn
  · cases hn

theorem Inv.resizeBuffers (h : Inv s) (ha : s.heap a = some o) {images : Option Nat}
    (hfree : ∀ b o', s.heap b = some o' → ∀ n ∈ o'.inner.holds, n ∉ o.inner.owns)
    (hn : s.resizeBuffers a images = some s') : Inv s' := by
  unfold Store.resizeBuffers at hn
  rw [onObject_some ha] at hn
  split at hn
  · cases hn
    exact h.resize ha _ hfree
  · cases hn

theorem Inv.createRenderTargetView (h : Inv s) (ha : 0 < s.held a) (hb : 0 < s.held b)
    {format : Format} {extent : Extent} {ok : Bool}
    (hn : s.createRenderTargetView a b format extent ok = some s') : Inv s' := by
  obtain ⟨dev, hdev⟩ := h.object ha
  obtain ⟨tex, htex⟩ := h.object hb
  unfold Store.createRenderTargetView at hn
  rw [onObject_some htex, onObject_some hdev] at hn
  split at hn
  · rename_i image _ hinner _
    split_ifs at hn
    · cases hn
      apply h.create
      · exact fun b hb => by cases hb
      · intro n hn
        apply (h.live b tex htex).natives n
        rw [hinner]
        exact hn
      · intro n hn
        rw [List.mem_singleton.mp hn]
        exact ⟨Nat.le_refl _, Nat.lt_succ_self _⟩
    · cases hn
      exact h
  · cases hn

theorem Inv.createOwner (h : Inv s) (ha : 0 < s.held a) {inner : Inner} {ok : Bool}
    (hpointers : inner.pointers = []) (hholds : inner.holds = [])
    (howns : ∀ n ∈ inner.owns, n.id = s.nextNative)
    (hn : (s.onObject a fun dev => match dev.inner with
      | .device _ => if ok then some (s.create inner 1) else some s
      | _ => none) = some s') : Inv s' := by
  obtain ⟨dev, hdev⟩ := h.object ha
  rw [onObject_some hdev] at hn
  split at hn
  · split_ifs at hn
    · cases hn
      apply h.create
      · rw [hpointers]
        exact fun b hb => absurd hb List.not_mem_nil
      · rw [hholds]
        exact fun n hn => absurd hn List.not_mem_nil
      · intro n hn
        rw [howns n hn]
        exact ⟨Nat.le_refl _, Nat.lt_succ_self _⟩
    · cases hn
      exact h
  · cases hn

theorem Inv.onContext (h : Inv s) (ha : 0 < s.held a) {op : D3d11.Op}
    (hop : ∀ n ∈ binds op, s.Exists n) (hn : s.onContext a op = some s') : Inv s' := by
  obtain ⟨o, ho⟩ := h.object ha
  unfold Store.onContext at hn
  rw [onObject_some ho] at hn
  split at hn
  · rename_i ctx hinner
    cases hn
    apply h.setContext ho hinner
    intro n hn
    rcases bound_step ctx op n hn with hold | hnew
    · apply (h.live a o ho).natives n
      rw [hinner]
      exact hold
    · exact hop n hnew
  · cases hn

theorem Inv.withView (h : Inv s) (ha : 0 < s.held a) (hb : 0 < s.held b)
    {op : RenderTargetView → D3d11.Op} (hop : ∀ v, ∀ n ∈ binds (op v), n = .view v.view.id)
    (hn : s.withView a b op = some s') : Inv s' := by
  obtain ⟨o, ho⟩ := h.object hb
  unfold Store.withView at hn
  rw [onObject_some ho] at hn
  split at hn
  · rename_i v hinner
    refine h.onContext ha (fun n hn => ⟨b, o, ho, ?_⟩) hn
    rw [hop v n hn, hinner]
    exact List.mem_singleton_self _
  · cases hn

theorem Inv.withShader (h : Inv s) (ha : 0 < s.held a) (hb : 0 < s.held b)
    {op : Shader → D3d11.Op} (hop : ∀ m, ∀ n ∈ binds (op m), n = .module m.module)
    (hn : s.withShader a b op = some s') : Inv s' := by
  obtain ⟨o, ho⟩ := h.object hb
  unfold Store.withShader at hn
  rw [onObject_some ho] at hn
  split at hn
  · rename_i m hinner
    refine h.onContext ha (fun n hn => ⟨b, o, ho, ?_⟩) hn
    rw [hop m n hn, hinner]
    exact List.mem_singleton_self _
  · cases hn

theorem Inv.withBuffer (h : Inv s) (ha : 0 < s.held a) (hb : 0 < s.held b)
    {op : Resource → D3d11.Op} (hop : ∀ r, ∀ n ∈ binds (op r), n = .buffer r.buffer)
    (hn : s.withBuffer a b op = some s') : Inv s' := by
  obtain ⟨o, ho⟩ := h.object hb
  unfold Store.withBuffer at hn
  rw [onObject_some ho] at hn
  split at hn
  · rename_i r hinner
    refine h.onContext ha (fun n hn => ⟨b, o, ho, ?_⟩) hn
    rw [hop r n hn, hinner]
    exact List.mem_singleton_self _
  · cases hn

theorem Inv.perform (h : Inv s) {c : Call} (huses : ∀ a ∈ c.uses, 0 < s.held a)
    (hcareful : c.Careful s) (hn : s.perform c = some s') : Inv s' := by
  cases c with
  | createDeviceAndSwapChain images =>
    cases images with
    | none =>
      cases hn
      exact h
    | some n =>
      cases hn
      exact h.createDeviceAndSwapChain n
  | createDevice ok =>
    cases hn
    cases ok with
    | false => exact h
    | true => exact h.createDevice
  | createFactory ok =>
    cases hn
    cases ok with
    | false => exact h
    | true => exact h.createShell rfl rfl rfl
  | queryInterface this =>
    cases hn
    exact h
  | addRef this =>
    obtain ⟨o, ho⟩ := h.object (huses this List.mem_cons_self)
    exact h.addRef ho (hcareful o ho) hn
  | release this =>
    obtain ⟨o, ho⟩ := h.object (huses this List.mem_cons_self)
    exact h.release ho (hcareful o ho) hn
  | getBuffer this index => exact h.getBuffer (huses this List.mem_cons_self) hn
  | resizeBuffers this images =>
    obtain ⟨o, ho⟩ := h.object (huses this List.mem_cons_self)
    exact h.resizeBuffers ho (hcareful o ho) hn
  | swapChainQuery this =>
    obtain ⟨o, ho⟩ := h.object (huses this List.mem_cons_self)
    simp only [Store.perform] at hn
    rw [onObject_some ho] at hn
    cases hn
    exact h
  | createRenderTargetView this resource format extent ok =>
    exact h.createRenderTargetView (huses this List.mem_cons_self)
      (huses resource (List.mem_cons_of_mem _ List.mem_cons_self)) hn
  | createShader this stage ok =>
    refine h.createOwner (huses this List.mem_cons_self) rfl rfl (fun n hn => ?_) hn
    rw [List.mem_singleton.mp hn]
    rfl
  | createBuffer this usage ok =>
    refine h.createOwner (huses this List.mem_cons_self) rfl rfl (fun n hn => ?_) hn
    rw [List.mem_singleton.mp hn]
    rfl
  | createInputLayout this =>
    obtain ⟨o, ho⟩ := h.object (huses this List.mem_cons_self)
    simp only [Store.perform, Store.createInputLayout] at hn
    rw [onObject_some ho] at hn
    split at hn
    · cases hn
      exact h.createShell rfl rfl rfl
    · cases hn
  | createState this =>
    cases hn
    exact h.createShell rfl rfl rfl
  | getImmediateContext this =>
    obtain ⟨o, ho⟩ := h.object (huses this List.mem_cons_self)
    simp only [Store.perform, Store.getImmediateContext] at hn
    rw [onObject_some ho] at hn
    split at hn
    · rename_i ctx hinner
      have hctx : ctx ∈ o.inner.pointers := by rw [hinner]; exact List.mem_singleton_self _
      obtain ⟨o', ho'⟩ := Option.isSome_iff_exists.mp ((h.live this o ho).pointers ctx hctx)
      exact h.addRef ho' (hcareful o ho ctx hctx o' ho') hn
    · cases hn
  | omSetRenderTargets this rtv o =>
    refine h.withView (huses this List.mem_cons_self)
      (huses rtv (List.mem_cons_of_mem _ List.mem_cons_self)) (fun _ _ hn => ?_) hn
    exact List.mem_singleton.mp hn
  | clearRenderTargetView this rtv color begin =>
    exact h.withView (huses this List.mem_cons_self)
      (huses rtv (List.mem_cons_of_mem _ List.mem_cons_self)) (fun _ _ hn => by cases hn) hn
  | vsSetShader this shader =>
    refine h.withShader (huses this List.mem_cons_self)
      (huses shader (List.mem_cons_of_mem _ List.mem_cons_self)) (fun _ _ hn => ?_) hn
    exact List.mem_singleton.mp hn
  | psSetShader this shader =>
    refine h.withShader (huses this List.mem_cons_self)
      (huses shader (List.mem_cons_of_mem _ List.mem_cons_self)) (fun _ _ hn => ?_) hn
    exact List.mem_singleton.mp hn
  | iaSetVertexBuffers this buffer offset =>
    refine h.withBuffer (huses this List.mem_cons_self)
      (huses buffer (List.mem_cons_of_mem _ List.mem_cons_self)) (fun _ _ hn => ?_) hn
    exact List.mem_singleton.mp hn
  | draw this vertexCount rasterizer o =>
    exact h.onContext (huses this List.mem_cons_self) (fun _ hn => by cases hn) hn
  | drawIndexed this indexCount vertexOffset rasterizer o =>
    exact h.onContext (huses this List.mem_cons_self) (fun _ hn => by cases hn) hn
  | flush this o => exact h.onContext (huses this List.mem_cons_self) (fun _ hn => by cases hn) hn
  | ignored this =>
    cases hn
    exact h

theorem comRuns_next {c : Call} (hn : comRuns.next s c = some s') :
    (∀ a ∈ c.uses, 0 < s.held a) ∧ s.perform c = some s' := by
  simp only [comRuns] at hn
  split_ifs at hn with huses
  exact ⟨huses, hn⟩

theorem inv_reachable (h : comRuns.ReachableIf (fun s c => Call.Careful s c) s) : Inv s := by
  apply h.invariant
  · intro s hs
    rw [show s = {} from hs]
    exact ⟨rfl, fun _ _ ho => (by cases ho), fun _ _ => rfl, fun _ _ => rfl,
      fun _ _ _ _ _ ho => (by cases ho)⟩
  · intro s c s' hs hok hn
    obtain ⟨huses, hperform⟩ := comRuns_next hn
    exact hs.perform huses hok hperform

theorem Inv.sound (h : Inv s) : Sound s where
  noFault := h.noFault
  held _ ha := Option.isSome_iff_exists.mpr (h.object ha)
  pointers a o ha := (h.live a o ha).pointers
  natives a o ha := (h.live a o ha).natives
  freed _ _ ha := Or.inl (h.live _ _ ha).positive

/-! ## What goes wrong otherwise -/

/-- The last reference goes while a live object refers to the object. -/
theorem Inv.not_sound_release (h : Inv s) (hbad : ¬ (Call.release a).Careful s)
    (hn : s.release a = some s') : ¬ Sound s' := by
  intro hsound
  simp only [Call.Careful, not_forall, not_not] at hbad
  obtain ⟨o, ha, hlast, b, o', hba, hb, hrefers⟩ := hbad
  unfold Store.release at hn
  rw [onObject_some ha] at hn
  simp only [hlast, Option.some.injEq] at hn
  have hheap : s'.heap = Function.update s.heap a none := by rw [← hn]; rfl
  have hb' : s'.heap b = some o' := (heap_ne hheap hba).trans hb
  rcases hrefers with hpointer | ⟨n, hholds, howns⟩
  · have hsome := hsound.pointers b o' hb' a hpointer
    rw [heap_self hheap] at hsome
    cases hsome
  · obtain ⟨c, o'', hc, hn'⟩ := hsound.natives b o' hb' n hholds
    by_cases hca : c = a
    · rw [hca, heap_self hheap] at hc
      cases hc
    · rw [heap_ne hheap hca] at hc
      exact hca (h.distinct c a o'' o n hc ha hn' howns)

theorem Inv.not_sound_resize (h : Inv s) {images : Option Nat}
    (hbad : ¬ (Call.resizeBuffers a images).Careful s) (hn : s.resizeBuffers a images = some s') :
    ¬ Sound s' := by
  intro hsound
  simp only [Call.Careful, not_forall, not_not] at hbad
  obtain ⟨o, ha, b, o', hb, n, hholds, howns⟩ := hbad
  unfold Store.resizeBuffers at hn
  rw [onObject_some ha] at hn
  split at hn
  · rename_i old hinner
    have hheap : s'.heap = Function.update s.heap a (some { o with
        inner := .swapChain (List.range' s.nextNative (images.getD 0)) }) := by
      cases hn
      rfl
    have hba : b ≠ a := by
      rintro rfl
      cases ha.symm.trans hb
      rw [hinner] at hholds
      cases hholds
    obtain ⟨c, o'', hc, hn'⟩ :=
      hsound.natives b o' ((heap_ne hheap hba).trans hb) n hholds
    by_cases hca : c = a
    · -- the new buffers are not the old ones
      rw [hca, heap_self hheap] at hc
      cases hc
      obtain ⟨i, hi, rfl⟩ := List.mem_map.mp hn'
      exact Nat.lt_irrefl _ (Nat.lt_of_lt_of_le ((h.live a o ha).ids _ howns)
        (List.mem_range'_1.mp hi).1)
    · rw [heap_ne hheap hca] at hc
      exact hca (h.distinct c a o'' o n hc ha hn' howns)
  · cases hn

/-- In careful runs counting is sound; and a step that is not careful makes it unsound at once, unless
    it only takes one reference too many. -/
theorem counting_sound (h : comRuns.ReachableIf (fun s c => Call.Careful s c) s) :
    Sound s ∧ ∀ c s', (∀ a, c ≠ .addRef a) → (∀ a, c ≠ .getImmediateContext a) →
      comRuns.next s c = some s' → (Sound s' ↔ c.Careful s) := by
  have hinv := inv_reachable h
  refine ⟨hinv.sound, ?_⟩
  intro c s' hadd hget hn
  obtain ⟨huses, hperform⟩ := comRuns_next hn
  constructor
  · intro hsound
    cases c with
    | release a => exact not_not.mp fun hbad => hinv.not_sound_release hbad hperform hsound
    | resizeBuffers a images =>
      exact not_not.mp fun hbad => hinv.not_sound_resize hbad hperform hsound
    | addRef a => exact absurd rfl (hadd a)
    | getImmediateContext a => exact absurd rfl (hget a)
    | _ => trivial
  · intro hcareful
    exact (hinv.perform huses hcareful hperform).sound

/-- The guest takes a second reference to the immediate context of a device. -/
def sharedContext : Store :=
  (comRuns.exec {} [.createDevice true, .getImmediateContext 1]).getD {}

theorem counting_sound_sharedContext : Sound sharedContext ∧ sharedContext.held 0 = 2 := by
  have hdevice : comRuns.ReachableIf (fun s c => Call.Careful s c)
      ((comRuns.exec {} [.createDevice true]).getD {}) :=
    .step (a := .createDevice true) (.start rfl) trivial rfl
  have hcareful : (Call.getImmediateContext 1).Careful
      ((comRuns.exec {} [.createDevice true]).getD {}) := by
    intro o ho b hb o' ho'
    cases ho
    rw [List.mem_singleton.mp hb] at ho'
    cases ho'
    decide
  exact ⟨(counting_sound (.step (a := .getImmediateContext 1) hdevice hcareful rfl)).1, rfl⟩

/-- A texture of the first buffer of a swap chain. -/
def backBuffer : Store :=
  (comRuns.exec {} [.createDeviceAndSwapChain (some 2), .getBuffer 2 0]).getD {}

/-- The guest releases the swap chain and keeps the texture. -/
def freedSwapChain : Store := (comRuns.next backBuffer (.release 2)).getD {}

/-- The guest releases the context that it was given with a device. -/
def freedContext : Store := (comRuns.exec {} [.createDevice true, .release 0]).getD {}

/-- The device still has the address of the context, which is then used after it was freed; the image of
    the texture is gone. -/
theorem freed_not_sound :
    (comRuns.Reachable freedContext ∧ ¬ Sound freedContext ∧
      (comRuns.next freedContext (.getImmediateContext 1)).map Store.fault = some true) ∧
    comRuns.Reachable freedSwapChain ∧ ¬ Sound freedSwapChain ∧ freedSwapChain.held 3 = 1 := by
  refine ⟨⟨Machine.reachable_of_exec (l := [.createDevice true, .release 0]) rfl rfl, ?_, rfl⟩,
    Machine.reachable_of_exec
      (l := [.createDeviceAndSwapChain (some 2), .getBuffer 2 0, .release 2]) rfl rfl, ?_, rfl⟩
  · intro hsound
    have hsome := hsound.pointers 1 ⟨1, .device 0⟩ rfl 0 List.mem_cons_self
    cases hsome
  · have hmade : comRuns.ReachableIf (fun s c => Call.Careful s c)
        ((comRuns.exec {} [.createDeviceAndSwapChain (some 2)]).getD {}) :=
      .step (a := .createDeviceAndSwapChain (some 2)) (.start rfl) trivial rfl
    have hinv : Inv backBuffer := inv_reachable (.step (a := .getBuffer 2 0) hmade trivial rfl)
    apply hinv.not_sound_release (a := 2)
    · intro hcareful
      exact hcareful ⟨1, .swapChain [0, 1]⟩ rfl rfl 3 ⟨1, .texture2d 0⟩ (by decide) rfl
        (Or.inr ⟨.image 0, List.mem_cons_self, List.mem_cons_self⟩)
    · rfl

end WinCompat.Gpu.Com
