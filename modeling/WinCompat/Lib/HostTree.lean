import WinCompat.Lib.Assoc

/-!
# A tree of directories

Directories are numbered, and so are files, which may have several names. A name may also be that of
a symbolic link. A path is resolved from the root or from the current directory; a link in it is
followed, at its end only if the call says so, and not more than `maxLinks` of them.

The calls are those of a kernel on a tree that the process may read and write.
-/

namespace WinCompat.Lib.HostTree

/-- The bytes of a path or of a name in one, as the kernel has them. -/
abbrev Path := List UInt8

inductive Node
  | dir (n : Nat)
  | file (n : Nat)
  | link (target : Path)
  deriving DecidableEq

inductive Errno
  | noent
  | notdir
  | isdir
  | exist
  | loop
  | inval
  | notempty
  | busy
  deriving DecidableEq

/-- What the directories have under their names. -/
abbrev Entries := List ((Nat × Path) × Node)

/-- No directory has two names. -/
def OneName (entries : Entries) : Prop :=
  ∀ k k' n, (k, .dir n) ∈ entries → (k', .dir n) ∈ entries → k = k'

/-- All directories have numbers below `next`. -/
def Below (next : Nat) (entries : Entries) : Prop := ∀ k n, (k, .dir n) ∈ entries → n < next

structure Tree where
  entries : Entries
  parent : Nat → Nat
  cwd : Nat
  contents : Nat → List UInt8
  /-- The number of the next directory or file. -/
  next : Nat
  oneName : OneName entries
  below : Below next entries

def root : Nat := 0

def slash : UInt8 := 47

def dot : Path := [46]

def dotdot : Path := [46, 46]

def components (p : Path) : List Path := (p.splitOn slash).filter (· ≠ [])

/-- What a path leads to: a directory by itself, or the name in a directory that it ends in. -/
inductive Place
  | dir (n : Nat)
  | entry (d : Nat) (name : Path) (node : Option Node)
  deriving DecidableEq

def Place.node : Place → Option Node
  | .dir n => some (.dir n)
  | .entry _ _ node => node

def maxLinks : Nat := 40

namespace Tree

/-! ## Resolution -/

def lookup (t : Tree) (d : Nat) (name : Path) : Option Node := t.entries.lookup (d, name)

def startOf (d : Nat) (p : Path) : Nat := if p.head? = some slash then root else d

/-- The components are looked up one after the other, up to a link. -/
def walkFrom (t : Tree) (follow : Bool) (onLink : Nat → List Path → Except Errno Place) :
    Nat → List Path → Except Errno Place
  | d, [] => .ok (.dir d)
  | d, name :: rest =>
      if name = dot then walkFrom t follow onLink d rest
      else if name = dotdot then walkFrom t follow onLink (t.parent d) rest
      else
        match t.lookup d name with
        | none => if rest = [] then .ok (.entry d name none) else .error .noent
        | some (.dir n) =>
            if rest = [] then .ok (.entry d name (some (.dir n)))
            else walkFrom t follow onLink n rest
        | some (.file n) =>
            if rest = [] then .ok (.entry d name (some (.file n))) else .error .notdir
        | some (.link target) =>
            if rest = [] ∧ follow = false then .ok (.entry d name (some (.link target)))
            else onLink (startOf d target) (components target ++ rest)

/-- At most `links` links are followed. -/
def walk (t : Tree) (follow : Bool) : Nat → Nat → List Path → Except Errno Place
  | 0 => t.walkFrom follow fun _ _ => .error .loop
  | links + 1 => t.walkFrom follow (t.walk follow links)

def endsInSlash (p : Path) : Bool := p.getLast? = some slash

/-- A path that ends in a slash is that of a directory or of nothing. -/
def resolve (t : Tree) (follow : Bool) (p : Path) : Except Errno Place :=
  if p = [] then .error .noent
  else
    match t.walk follow maxLinks (startOf t.cwd p) (components p) with
    | .error e => .error e
    | .ok place =>
        match place.node with
        | some (.file _) | some (.link _) =>
            if endsInSlash p then .error .notdir else .ok place
        | _ => .ok place

/-! ## Entries -/

end Tree

variable {entries : Entries} {k : Nat × Path}

theorem OneName.cons (h : OneName entries) {node : Node}
    (hnode : ∀ n k', node = .dir n → (k', .dir n) ∉ entries) : OneName ((k, node) :: entries) := by
  intro j j' n hj hj'
  rcases List.mem_cons.mp hj with heq | hj <;> rcases List.mem_cons.mp hj' with heq' | hj'
  · rw [(Prod.mk.inj heq).1, (Prod.mk.inj heq').1]
  · exact absurd hj' (hnode n j' (Prod.mk.inj heq).2.symm)
  · exact absurd hj (hnode n j (Prod.mk.inj heq').2.symm)
  · exact h j j' n hj hj'

theorem OneName.subset {entries entries' : Entries} (h : OneName entries)
    (hsub : entries' ⊆ entries) : OneName entries' :=
  fun k k' n hk hk' => h k k' n (hsub hk) (hsub hk')

theorem Below.cons {next : Nat} (h : Below next entries) {node : Node} {next' : Nat}
    (hle : next ≤ next') (hnode : ∀ n, node = .dir n → n < next') :
    Below next' ((k, node) :: entries) := by
  intro j n hj
  rcases List.mem_cons.mp hj with heq | hj
  · exact hnode n (Prod.mk.inj heq).2.symm
  · exact Nat.lt_of_lt_of_le (h j n hj) hle

theorem Below.subset {next : Nat} {entries entries' : Entries} (h : Below next entries)
    (hsub : entries' ⊆ entries) : Below next entries' :=
  fun k n hk => h k n (hsub hk)

theorem without_subset : Assoc.without k entries ⊆ entries :=
  fun _ he => (Assoc.mem_without.mp he).1

namespace Tree

def addFile (t : Tree) (d : Nat) (name : Path) : Tree where
  entries := ((d, name), .file t.next) :: t.entries
  parent := t.parent
  cwd := t.cwd
  contents := Function.update t.contents t.next []
  next := t.next + 1
  oneName := t.oneName.cons nofun
  below := t.below.cons (Nat.le_succ _) nofun

def addDir (t : Tree) (d : Nat) (name : Path) : Tree where
  entries := ((d, name), .dir t.next) :: t.entries
  parent := Function.update t.parent t.next d
  cwd := t.cwd
  contents := t.contents
  next := t.next + 1
  oneName := t.oneName.cons fun n k heq hmem =>
    absurd (t.below k n hmem) (Node.dir.inj heq ▸ Nat.lt_irrefl _)
  below := t.below.cons (Nat.le_succ _) fun _ heq => Node.dir.inj heq ▸ Nat.lt_succ_self _

def remove (t : Tree) (k : Nat × Path) : Tree :=
  let entries := Assoc.without k t.entries
  { t with entries, oneName := t.oneName.subset without_subset
           below := t.below.subset without_subset }

/-- An entry is put in the place of another. -/
def move (t : Tree) (source dest : Nat × Path) : Tree :=
  match h : t.entries.lookup source with
  | none => t
  | some node =>
      let others := Assoc.without source t.entries
      have hold : ∀ n k, node = .dir n → (k, .dir n) ∉ others := by
        intro n k heq hmem
        have hk := Assoc.mem_without.mp hmem
        exact hk.2 (t.oneName k source n hk.1 (heq ▸ Assoc.mem_of_lookup h))
      { t with
        entries := (dest, node) :: Assoc.without dest others
        parent := match node with
          | .dir n => Function.update t.parent n dest.1
          | _ => t.parent
        oneName := OneName.cons ((t.oneName.subset without_subset).subset without_subset)
          fun n k heq hmem => hold n k heq (without_subset hmem)
        below := Below.cons ((t.below.subset without_subset).subset without_subset)
          (Nat.le_refl _) fun n heq => t.below source n (heq ▸ Assoc.mem_of_lookup h) }

/-! ## Calls -/

/-- `stat(2)`, as far as whether it succeeds. -/
def exists_ (t : Tree) (p : Path) : Bool :=
  match t.resolve true p with
  | .ok place => place.node.isSome
  | .error _ => false

def setContents (t : Tree) (n : Nat) (bytes : List UInt8) : Tree :=
  { t with contents := Function.update t.contents n bytes }

structure OpenFlags where
  write : Bool
  creat : Bool
  excl : Bool
  trunc : Bool
  deriving DecidableEq

/-- What a descriptor is open on. -/
inductive Opened
  | dir (n : Nat)
  | file (n : Nat)
  deriving DecidableEq

/-- `open(2)` -/
def open_ (t : Tree) (p : Path) (flags : OpenFlags) : Except Errno (Opened × Tree) :=
  match t.resolve (!(flags.creat && flags.excl)) p with
  | .error e => .error e
  | .ok place =>
      match place with
      | .entry d name none =>
          if !flags.creat then .error .noent
          else if endsInSlash p then .error .isdir
          else .ok (.file t.next, t.addFile d name)
      | _ =>
          if flags.creat && flags.excl then .error .exist
          else
            match place.node with
            | some (.dir n) =>
                if flags.write || flags.creat || flags.trunc then .error .isdir
                else .ok (.dir n, t)
            | some (.file n) => .ok (.file n, if flags.trunc then t.setContents n [] else t)
            | _ => .error .loop

/-- `mkdir(2)` -/
def mkdir (t : Tree) (p : Path) : Except Errno Tree :=
  match t.resolve false p with
  | .error e => .error e
  | .ok (.entry d name none) => .ok (t.addDir d name)
  | .ok _ => .error .exist

/-- `unlink(2)` -/
def unlink (t : Tree) (p : Path) : Except Errno Tree :=
  match t.resolve false p with
  | .error e => .error e
  | .ok (.entry _ _ none) => .error .noent
  | .ok (.entry _ _ (some (.dir _))) | .ok (.dir _) => .error .isdir
  | .ok (.entry d name (some _)) => .ok (t.remove (d, name))

/-- `chdir(2)` -/
def chdir (t : Tree) (p : Path) : Except Errno Tree :=
  match t.resolve true p with
  | .error e => .error e
  | .ok place =>
      match place.node with
      | none => .error .noent
      | some (.dir n) => .ok { t with cwd := n }
      | some _ => .error .notdir

/-- `d` is the directory `n` or in it; there are no more steps up than entries. -/
def within (t : Tree) (n : Nat) : Nat → Nat → Bool
  | 0, d => d = n
  | steps + 1, d => d = n || t.within n steps (t.parent d)

def isEmptyDir (t : Tree) (n : Nat) : Bool := t.entries.all (·.1.1 ≠ n)

/-- `rename(2)` -/
def rename (t : Tree) (source dest : Path) : Except Errno Tree :=
  match t.resolve false source, t.resolve false dest with
  | .error e, _ | _, .error e => .error e
  | .ok (.dir _), _ | _, .ok (.dir _) => .error .busy
  | .ok (.entry _ _ none), _ => .error .noent
  | .ok (.entry d name (some node)), .ok (.entry d' name' node') =>
      match node, node' with
      | .dir n, none =>
          if t.within n t.entries.length d' then .error .inval
          else .ok (t.move (d, name) (d', name'))
      | .dir n, some (.dir n') =>
          if n = n' then .ok t
          else if t.within n t.entries.length d' then .error .inval
          else if t.isEmptyDir n' then .ok (t.move (d, name) (d', name'))
          else .error .notempty
      | .dir _, some _ => .error .notdir
      | _, some (.dir _) => .error .isdir
      | .file n, some (.file n') =>
          if n = n' then .ok t else .ok (t.move (d, name) (d', name'))
      | _, none =>
          if endsInSlash dest then .error .notdir else .ok (t.move (d, name) (d', name'))
      | _, some _ =>
          if (d, name) = (d', name') then .ok t else .ok (t.move (d, name) (d', name'))

/-- The name of a directory in its parent, and so up to the root. -/
def pathOf (t : Tree) : Nat → Nat → Option (List Path)
  | 0, d => if d = root then some [] else none
  | steps + 1, d =>
      if d = root then some []
      else
        match t.entries.find? (·.2 = .dir d) with
        | some ((up, name), _) => (t.pathOf steps up).map (· ++ [name])
        | none => none

/-- `getcwd(3)` -/
def getcwd (t : Tree) : Option Path :=
  (t.pathOf t.entries.length t.cwd).map fun names =>
    if names = [] then [slash] else names.flatMap (slash :: ·)

/-! ## The entry that a path ends in -/

variable {t u : Tree} {p name : Path} {d : Nat} {node : Option Node} {links : Nat}

variable {d' : Nat}

theorem walkFrom_last {onLink : Nat → List Path → Except Errno Place} {names : List Path}
    (hlink : ∀ d names, onLink d names = .ok (.entry d' name node) →
      names.getLast? = some name ∧ t.lookup d' name = node)
    (h : t.walkFrom false onLink d names = .ok (.entry d' name node)) :
    names.getLast? = some name ∧ t.lookup d' name = node := by
  induction names generalizing d with
  | nil => cases h
  | cons first rest ih =>
    have hrest (d : Nat) (h : t.walkFrom false onLink d rest = .ok (.entry d' name node)) :
        (first :: rest).getLast? = some name ∧ t.lookup d' name = node := by
      have hlast := ih h
      exact ⟨by rw [List.getLast?_cons, hlast.1, Option.getD_some], hlast.2⟩
    unfold walkFrom at h
    split at h
    · exact hrest d h
    split at h
    · exact hrest _ h
    have hend (node' : Option Node) (hnode : t.lookup d first = node') (hnil : rest = [])
        (heq : Place.entry d first node' = .entry d' name node) :
        (first :: rest).getLast? = some name ∧ t.lookup d' name = node := by
      cases heq
      rw [hnil]
      exact ⟨rfl, hnode⟩
    split at h <;> rename_i hnode
    · split at h
      · exact hend _ hnode ‹_› (Except.ok.inj h)
      · cases h
    · split at h
      · exact hend _ hnode ‹_› (Except.ok.inj h)
      · exact hrest _ h
    · split at h
      · exact hend _ hnode ‹_› (Except.ok.inj h)
      · cases h
    · rename_i target
      split at h
      · rename_i hnil
        exact hend _ hnode hnil.1 (Except.ok.inj h)
      · rename_i hmore
        have hne : rest ≠ [] := fun hnil => hmore ⟨hnil, rfl⟩
        have hlast := hlink _ _ h
        rw [List.getLast?_append_of_ne_nil _ hne] at hlast
        rw [List.getLast?_cons_of_ne_nil hne]
        exact hlast

theorem walk_last {names : List Path} (h : t.walk false links d names = .ok (.entry d' name node)) :
    names.getLast? = some name ∧ t.lookup d' name = node := by
  induction links generalizing d names with
  | zero =>
    unfold walk at h
    refine walkFrom_last ?_ h
    intro _ _ hloop
    cases hloop
  | succ links ih =>
    unfold walk at h
    exact walkFrom_last (fun _ _ hnext => ih hnext) h

theorem resolve_last (h : t.resolve false p = .ok (.entry d name node)) :
    (components p).getLast? = some name ∧ t.lookup d name = node := by
  unfold resolve at h
  split at h
  · cases h
  split at h
  · cases h
  rename_i place hwalk
  have hplace : place = .entry d name node := by
    split at h
    · split at h
      · cases h
      · exact Except.ok.inj h
    · split at h
      · cases h
      · exact Except.ok.inj h
    · exact Except.ok.inj h
  rw [hplace] at hwalk
  exact walk_last hwalk

/-- A name by itself, other than that of a directory in itself and in what is in it. -/
structure IsName (name : Path) : Prop where
  ne_nil : name ≠ []
  slash : slash ∉ name
  dot : name ≠ dot
  dotdot : name ≠ dotdot

theorem length_of_mem_splitOn {c : Path} (h : c ∈ p.splitOn slash) :
    c.length + p.count slash ≤ p.length := by
  induction p generalizing c with
  | nil =>
    rw [List.splitOn_nil, List.mem_singleton] at h
    simp [h]
  | cons b p ih =>
    rw [List.splitOn_cons_eq_if_modifyHead] at h
    split at h
    · rename_i hb
      rw [eq_of_beq hb, List.count_cons_self]
      rcases List.mem_cons.mp h with hnil | h
      · have hle : p.count slash ≤ p.length := List.count_le_length
        rw [hnil]
        simpa using hle
      · exact Nat.succ_le_succ (ih h)
    · rename_i hb
      obtain ⟨first, rest, hsplit⟩ := List.exists_cons_of_ne_nil (List.splitOn_ne_nil slash p)
      rw [hsplit] at h ih
      rw [List.count_cons_of_ne (by simpa using hb)]
      rcases List.mem_cons.mp h with hfirst | h
      · have hlen := ih List.mem_cons_self
        rw [hfirst, List.length_cons, List.length_cons]
        simpa [Nat.add_right_comm] using hlen
      · exact Nat.le_succ_of_le (ih (List.mem_cons_of_mem _ h))

theorem length_of_mem_components {c : Path} (h : c ∈ components p) (hslash : slash ∈ p) :
    c.length < p.length :=
  Nat.lt_of_lt_of_le (Nat.lt_add_of_pos_right (List.count_pos_iff.mpr hslash))
    (length_of_mem_splitOn (List.mem_filter.mp h).1)

theorem components_of_noSlash (hne : p ≠ []) (hslash : slash ∉ p) : components p = [p] := by
  have hkeep : [p].filter (· ≠ []) = [p] := by simp [hne]
  rw [components, List.splitOn_eq_singleton hslash, hkeep]

theorem IsName.startOf (h : IsName name) : startOf d name = d := by
  apply if_neg
  intro hhead
  exact h.slash (List.mem_of_head? hhead)

theorem IsName.endsInSlash (h : IsName name) : endsInSlash name = false := by
  apply decide_eq_false
  intro hlast
  exact h.slash (List.mem_of_getLast? hlast)

theorem resolve_name (h : IsName name) :
    t.resolve false name = .ok (.entry t.cwd name (t.lookup t.cwd name)) := by
  have hwalk : t.walk false maxLinks t.cwd [name] =
      .ok (.entry t.cwd name (t.lookup t.cwd name)) := by
    unfold maxLinks walk walkFrom
    rw [if_neg h.dot, if_neg h.dotdot]
    cases t.lookup t.cwd name with
    | none => rfl
    | some node => cases node <;> rfl
  unfold resolve
  rw [if_neg h.ne_nil, h.startOf, components_of_noSlash h.ne_nil h.slash, hwalk, h.endsInSlash]
  cases t.lookup t.cwd name with
  | none => rfl
  | some node => cases node <;> rfl

theorem resolve_name_follow (h : IsName name) :
    t.resolve true name = t.walk true maxLinks t.cwd [name] := by
  unfold resolve
  rw [if_neg h.ne_nil, h.startOf, components_of_noSlash h.ne_nil h.slash, h.endsInSlash]
  cases t.walk true maxLinks t.cwd [name] with
  | error e => rfl
  | ok place =>
    dsimp only
    split <;> rfl

/-- The name leads to the directory `d`. -/
def LeadsTo (t : Tree) (name : Path) (d : Nat) : Prop :=
  ∃ place, t.walk true maxLinks t.cwd [name] = .ok place ∧ place.node = some (.dir d)

theorem chdir_self_iff (h : IsName name) : t.chdir name = .ok t ↔ t.LeadsTo name t.cwd := by
  unfold chdir LeadsTo
  rw [resolve_name_follow h]
  cases t.walk true maxLinks t.cwd [name] with
  | error e =>
    constructor
    · intro hself
      cases hself
    · rintro ⟨place, hplace, -⟩
      cases hplace
  | ok place =>
    dsimp only
    constructor
    · intro hself
      refine ⟨place, rfl, ?_⟩
      split at hself
      · cases hself
      · rename_i n hnode
        rw [hnode, ← Except.ok.inj hself]
      · cases hself
    · rintro ⟨place', hplace, hnode⟩
      rw [Except.ok.inj hplace, hnode]

theorem getcwd_slash (h : t.getcwd = some p) : ∃ rest, p = slash :: rest := by
  obtain ⟨names, -, hp⟩ := Option.map_eq_some_iff.mp h
  cases names with
  | nil => exact ⟨[], hp.symm⟩
  | cons name names => exact ⟨name ++ names.flatMap (slash :: ·), hp.symm⟩

/-! ## Which entry a call is about -/

theorem lookup_addDir (t : Tree) (d : Nat) (name : Path) :
    (t.addDir d name).lookup d name = some (.dir t.next) := List.lookup_cons_self

variable {name' : Path}

theorem lookup_addDir_ne (h : (d, name) ≠ (d', name')) :
    (t.addDir d' name').lookup d name = t.lookup d name :=
  Assoc.lookup_cons_ne h _ _

theorem lookup_remove (t : Tree) (d : Nat) (name : Path) :
    (t.remove (d, name)).lookup d name = none := Assoc.lookup_without_self

theorem lookup_remove_ne (h : (d, name) ≠ (d', name')) :
    (t.remove (d', name')).lookup d name = t.lookup d name := Assoc.lookup_without_ne h

theorem lookup_move (h : (d, name) ≠ (d', name')) (hsource : t.lookup d name ≠ none) :
    (t.move (d, name) (d', name')).lookup d name = none := by
  unfold move
  split
  · rename_i hnone
    exact absurd hnone hsource
  · refine (Assoc.lookup_cons_ne h _ _).trans ?_
    exact (Assoc.lookup_without_ne h).trans Assoc.lookup_without_self

theorem mkdir_ne (h : IsName name) (hp : (components p).getLast? ≠ some name)
    (hfree : t.lookup t.cwd name = none) :
    t.mkdir name = .ok (t.addDir t.cwd name) ∧ t.mkdir p ≠ .ok (t.addDir t.cwd name) := by
  constructor
  · unfold mkdir
    rw [resolve_name h, hfree]
  · intro hmade
    unfold mkdir at hmade
    split at hmade
    · cases hmade
    · rename_i d name' hplace
      have hlast := resolve_last hplace
      have hne : (t.cwd, name) ≠ (d, name') := by
        intro heq
        rw [(Prod.mk.inj heq).2] at hp
        exact hp hlast.1
      have hlookup := lookup_addDir t t.cwd name
      rw [← Except.ok.inj hmade, lookup_addDir_ne hne, hfree] at hlookup
      cases hlookup
    · cases hmade

theorem unlink_ne (h : IsName name) (hp : (components p).getLast? ≠ some name) {node : Node}
    (hused : t.lookup t.cwd name = some node) (hnode : ∀ n, node ≠ .dir n) :
    t.unlink name = .ok (t.remove (t.cwd, name)) ∧
      t.unlink p ≠ .ok (t.remove (t.cwd, name)) := by
  constructor
  · unfold unlink
    rw [resolve_name h, hused]
    cases node with
    | dir n => exact absurd rfl (hnode n)
    | file n => rfl
    | link target => rfl
  · intro hremoved
    unfold unlink at hremoved
    split at hremoved
    · cases hremoved
    · cases hremoved
    · cases hremoved
    · cases hremoved
    · rename_i d name' _ _ hplace
      have hlast := resolve_last hplace
      have hne : (t.cwd, name) ≠ (d, name') := by
        intro heq
        rw [(Prod.mk.inj heq).2] at hp
        exact hp hlast.1
      have hlookup := lookup_remove t t.cwd name
      rw [← Except.ok.inj hremoved, lookup_remove_ne hne, hused] at hlookup
      cases hlookup

theorem rename_ne (h : IsName name) (hp : (components p).getLast? ≠ some name) {n : Nat}
    (hdir : t.lookup t.cwd name = some (.dir n)) :
    t.rename name name = .ok t ∧ t.rename p name ≠ .ok t := by
  constructor
  · unfold rename
    rw [resolve_name h, hdir]
    exact if_pos rfl
  · intro hrenamed
    unfold rename at hrenamed
    rw [resolve_name h, hdir] at hrenamed
    split at hrenamed
    · cases hrenamed
    · cases hrenamed
    · cases hrenamed
    · cases hrenamed
    · cases hrenamed
    · rename_i d name' node d' name'' node' hplace hdest
      cases hdest
      have hlast := resolve_last hplace
      have hne : (d, name') ≠ (t.cwd, name) := by
        intro heq
        rw [← (Prod.mk.inj heq).2] at hp
        exact hp hlast.1
      cases node with
      | file m => cases hrenamed
      | link target => cases hrenamed
      | dir m =>
        have hother : m ≠ n := by
          intro heq
          rw [heq] at hlast
          exact hne (t.oneName _ _ n (Assoc.mem_of_lookup hlast.2) (Assoc.mem_of_lookup hdir))
        dsimp only at hrenamed
        rw [if_neg hother] at hrenamed
        split at hrenamed
        · cases hrenamed
        split at hrenamed
        · have hgone := lookup_move hne (Option.ne_none_iff_exists'.mpr ⟨_, hlast.2⟩)
          rw [Except.ok.inj hrenamed, hlast.2] at hgone
          cases hgone
        · cases hrenamed

end Tree

end WinCompat.Lib.HostTree
