import Foton.Lib.AssocList
import Foton.Lib.Coverage
import Foton.Lib.KeyedSort
import Foton.Lib.LockOrder
import Foton.Lib.Run

/-!
# Container lock guards

A guard locks its containers in the order of their ids. It lets go of all of
them while the owner of a changed container is told, and takes them again in the
same order. Threads run side by side; each uses one guard at a time, and may
open another inside such a callback.
-/

namespace Foton.Lock

open KeyedSort

abbrev ContainerId : Type := Nat

/-- What a container can do; `removeItem` gives back what it removed. -/
structure ContainerOps (C S : Type) where
  setItem : C → Nat → S → C
  removeItem : C → Nat → Int → C × S
  setChanged : C → C
  isEmpty : S → Bool

structure ContainerRef (O : Type) where
  id : ContainerId
  owner : Option O
  deriving DecidableEq

variable {O : Type}

/-! ## The order of the locks -/

/-- `dedup_by_key`: of neighbours with one key the first stays. -/
def dedupByKey {α : Type} : List (ContainerId × α) → List (ContainerId × α)
  | a :: b :: rest => if a.1 = b.1 then dedupByKey (a :: rest) else a :: dedupByKey (b :: rest)
  | xs => xs
termination_by xs => xs.length

abbrev Sources (O : Type) : Type := List (ContainerId × ContainerRef O)

def prepare (containers : List (ContainerRef O)) : Sources O :=
  dedupByKey (sortByKey id (containers.map fun c => (c.id, c)))

def Increasing (sources : Sources O) : Prop := sources.Pairwise fun a b => a.1 < b.1

section

variable {xs sorted : Sources O} {a : ContainerId × ContainerRef O} {k : ContainerId}

theorem dedupByKey_sublist (xs : Sources O) : (dedupByKey xs).Sublist xs := by
  fun_induction dedupByKey xs with
  | case1 a b rest heq ih => exact ih.trans ((List.sublist_cons_self b rest).cons_cons a)
  | case2 a b rest hne ih => exact ih.cons_cons a
  | case3 xs h => exact List.Sublist.refl xs

theorem increasing_dedupByKey (h : xs.Pairwise fun a b => a.1 ≤ b.1) : Increasing (dedupByKey xs) := by
  fun_induction dedupByKey xs with
  | case1 a b rest heq ih =>
    rw [List.pairwise_cons, List.pairwise_cons] at h
    exact ih (List.pairwise_cons.mpr ⟨fun x hx => h.1 x (List.mem_cons_of_mem b hx), h.2.2⟩)
  | case2 a b rest hne ih =>
    rw [List.pairwise_cons] at h
    refine List.pairwise_cons.mpr ⟨?_, ih h.2⟩
    intro x hx
    have hb : a.1 < b.1 := lt_of_le_of_ne (h.1 b List.mem_cons_self) hne
    rcases List.mem_cons.mp ((dedupByKey_sublist _).subset hx) with heq | hx
    · rw [heq]
      exact hb
    · exact hb.trans_le ((List.pairwise_cons.mp h.2).1 x hx)
  | case3 xs hshort =>
    match xs with
    | [] => exact List.Pairwise.nil
    | [a] => exact List.pairwise_singleton _ a
    | a :: b :: rest => exact absurd rfl (hshort a b rest)

/-- For each key the first entry stays. -/
theorem find?_dedupByKey (h : xs.Pairwise fun a b => a.1 ≤ b.1) (k : ContainerId) :
    ((dedupByKey xs).find? fun x => decide (x.1 = k)) = xs.find? fun x => decide (x.1 = k) := by
  fun_induction dedupByKey xs with
  | case1 a b rest heq ih =>
    rw [List.pairwise_cons, List.pairwise_cons] at h
    rw [ih (List.pairwise_cons.mpr ⟨fun x hx => h.1 x (List.mem_cons_of_mem b hx), h.2.2⟩)]
    by_cases hk : a.1 = k
    · rw [List.find?_cons_of_pos (by simpa using hk), List.find?_cons_of_pos (by simpa using hk)]
    · rw [List.find?_cons_of_neg (by simpa using hk), List.find?_cons_of_neg (by simpa using hk),
        List.find?_cons_of_neg (by simpa using heq ▸ hk)]
  | case2 a b rest hne ih =>
    rw [List.pairwise_cons] at h
    by_cases hk : a.1 = k
    · rw [List.find?_cons_of_pos (by simpa using hk), List.find?_cons_of_pos (by simpa using hk)]
    · rw [List.find?_cons_of_neg (by simpa using hk), List.find?_cons_of_neg (by simpa using hk), ih h.2]
  | case3 xs hshort => rfl

theorem find?_orderedInsert (a : ContainerId × ContainerRef O) (sorted : Sources O) (k : ContainerId) :
    ((sorted.orderedInsert (fun a b => a.1 ≤ b.1) a).find? fun x => decide (x.1 = k)) =
      if a.1 = k then some a else sorted.find? fun x => decide (x.1 = k) := by
  induction sorted with
  | nil => by_cases hk : a.1 = k <;> simp [hk]
  | cons b rest ih =>
    rw [List.orderedInsert_cons]
    by_cases hle : a.1 ≤ b.1
    · rw [if_pos hle]
      by_cases hk : a.1 = k <;> simp [hk]
    · rw [if_neg hle]
      by_cases hb : b.1 = k
      · have ha : ¬ a.1 = k := fun ha => hle (by rw [ha, hb])
        rw [if_neg ha, List.find?_cons_of_pos (by simpa using hb), List.find?_cons_of_pos (by simpa using hb)]
      · rw [List.find?_cons_of_neg (by simpa using hb), List.find?_cons_of_neg (by simpa using hb), ih]

/-- The sort is stable. -/
theorem find?_sortByKey (xs : Sources O) (k : ContainerId) :
    ((sortByKey id xs).find? fun x => decide (x.1 = k)) = xs.find? fun x => decide (x.1 = k) := by
  unfold sortByKey
  induction xs with
  | nil => rfl
  | cons a rest ih =>
    rw [List.insertionSort_cons]
    refine (find?_orderedInsert a _ k).trans ?_
    by_cases hk : a.1 = k
    · rw [if_pos hk, List.find?_cons_of_pos (by simpa using hk)]
    · rw [if_neg hk, List.find?_cons_of_neg (by simpa using hk)]
      exact ih

theorem increasing_prepare (containers : List (ContainerRef O)) : Increasing (prepare containers) :=
  increasing_dedupByKey (sortByKey_sorted id _)

/-- A guard locks what it is given, once each, under the reference that came first. -/
theorem find?_prepare (containers : List (ContainerRef O)) (k : ContainerId) :
    ((prepare containers).find? fun x => decide (x.1 = k)) =
      (containers.find? fun c => decide (c.id = k)).map fun c => (c.id, c) := by
  unfold prepare
  rw [find?_dedupByKey (sortByKey_sorted id _), find?_sortByKey, List.find?_map]
  rfl

end

/-! ## Guards -/

structure ContainerLockGuard (O : Type) where
  sources : Sources O
  guards : List ContainerId
  idToIndex : AssocList ContainerId Nat

namespace ContainerLockGuard

/-- A guard before it has locked anything. -/
def new (containers : List (ContainerRef O)) : ContainerLockGuard O where
  sources := prepare containers
  guards := []
  idToIndex := AssocList.insertAll ((prepare containers).zipIdx.map fun entry => (entry.1.1, entry.2)) ∅

variable (g : ContainerLockGuard O)

def ids : List ContainerId := g.sources.map Prod.fst

/-- The container to lock next. -/
def next : Option ContainerId := g.ids[g.guards.length]?

/-- The containers are in order, a first part of them is locked, and the index finds each. -/
structure WellFormed : Prop where
  increasing : g.ids.Pairwise (· < ·)
  locked : g.guards <+: g.ids
  index : ∀ id i, g.idToIndex.lookup id = some i ↔ g.ids[i]? = some id

variable {g}

theorem wellFormed_new (containers : List (ContainerRef O)) : (new containers).WellFormed where
  increasing := List.pairwise_map.mpr (increasing_prepare containers)
  locked := List.nil_prefix
  index := by
    intro id i
    have hnodup : ((prepare containers).map Prod.fst).Nodup :=
      (List.pairwise_map.mpr (increasing_prepare containers)).imp fun hlt => hlt.ne
    have hentry : ∀ id i, (id, i) ∈ (prepare containers).zipIdx.map (fun entry => (entry.1.1, entry.2)) ↔
        ((prepare containers).map Prod.fst)[i]? = some id := by
      intro id i
      rw [List.mem_map, List.getElem?_map, Option.map_eq_some_iff]
      constructor
      · intro h
        obtain ⟨⟨source, j⟩, hmem, heq⟩ := h
        cases heq
        exact ⟨source, List.mem_zipIdx_iff_getElem?.mp hmem, rfl⟩
      · intro h
        obtain ⟨source, hat, rfl⟩ := h
        exact ⟨(source, i), List.mem_zipIdx_iff_getElem?.mpr hat, rfl⟩
    unfold new ids
    dsimp only
    rcases AssocList.lookup_insertAll ((prepare containers).zipIdx.map fun entry => (entry.1.1, entry.2)) ∅ id with
      ⟨hnone, hnot⟩ | ⟨j, hmem, hsome⟩
    · rw [hnone]
      refine iff_of_false (by simp) ?_
      intro hat
      exact hnot (List.mem_map.mpr ⟨(id, i), (hentry id i).mpr hat, rfl⟩)
    · have hj := (hentry id j).mp hmem
      rw [hsome]
      constructor
      · intro heq
        cases heq
        exact hj
      · intro hat
        exact congrArg some ((List.getElem?_inj (List.getElem?_eq_some_iff.mp hj).1 hnodup).mp (hj.trans hat.symm))

theorem WellFormed.release (h : g.WellFormed) : WellFormed { g with guards := [] } where
  increasing := h.increasing
  locked := List.nil_prefix
  index := h.index

theorem WellFormed.acquire (h : g.WellFormed) {id : ContainerId} (hnext : g.next = some id) :
    WellFormed { g with guards := g.guards ++ [id] } where
  increasing := h.increasing
  locked := by
    obtain ⟨rest, hrest⟩ := h.locked
    have hat : (g.guards ++ rest)[g.guards.length]? = some id := by
      rw [hrest]
      exact hnext
    rw [List.getElem?_append_right le_rfl, Nat.sub_self] at hat
    obtain ⟨tail, rfl⟩ := List.head?_eq_some_iff.mp (List.head?_eq_getElem?.trans hat)
    exact ⟨tail, by rw [List.append_assoc]; exact hrest⟩
  index := h.index

theorem WellFormed.lt_next (h : g.WellFormed) {id held : ContainerId} (hnext : g.next = some id) (hheld : held ∈ g.guards) :
    held < id := by
  obtain ⟨rest, hrest⟩ := h.locked
  have hat : (g.guards ++ rest)[g.guards.length]? = some id := by
    rw [hrest]
    exact hnext
  rw [List.getElem?_append_right le_rfl, Nat.sub_self] at hat
  have hincreasing := h.increasing
  rw [← hrest, List.pairwise_append] at hincreasing
  exact hincreasing.2.2 held hheld id (List.mem_of_getElem? hat)

theorem WellFormed.ready (h : g.WellFormed) (hready : g.next = none) : g.guards = g.ids :=
  h.locked.eq_of_length_le (List.getElem?_eq_none_iff.mp hready)

end ContainerLockGuard

/-! ## Threads -/

/-- The guard in use, and the guards whose owner callbacks are running, the innermost first. -/
structure ThreadState (O : Type) where
  current : Option (ContainerLockGuard O)
  suspended : List (ContainerLockGuard O)

structure LockSystem (T C O : Type) where
  threads : T → ThreadState O
  locked : AssocList ContainerId T
  memory : ContainerId → C

inductive LockAction (C S O : Type) where
  | unpack (id : ContainerId) (contents : C)
  | lockAll (containers : List (ContainerRef O))
  | acquire
  | setItem (id : ContainerId) (slot : Nat) (stack : S)
  | removeItem (id : ContainerId) (slot : Nat) (amount : Int)
  | setChanged (id : ContainerId)
  | callbackDone
  | drop

inductive LockReply (S : Type) where
  | done
  | changed (found : Bool)
  | removed (stack : Option S)

/-- What an access makes of the contents, its reply, and whether the owner is told. -/
abbrev Access (C S : Type) : Type := C → C × LockReply S × Bool

namespace LockSystem

variable {T C S : Type} [DecidableEq T] (ops : ContainerOps C S)

def init (memory : ContainerId → C) : LockSystem T C O := ⟨fun _ => ⟨none, []⟩, ∅, memory⟩

variable (s : LockSystem T C O) (t : T)

def setThread (state : ThreadState O) : LockSystem T C O := { s with threads := Function.update s.threads t state }

def release (g : ContainerLockGuard O) : LockSystem T C O :=
  { s with locked := g.guards.foldl (fun locked id => locked.erase id) s.locked }

/-- `run_unlocked`: every lock is let go of while the owner is told. -/
def notifyOwner (g : ContainerLockGuard O) : Option O → LockSystem T C O
  | none => s
  | some _ => (s.release g).setThread t ⟨none, { g with guards := [] } :: (s.threads t).suspended⟩

/-- An access through the index of a guard that has locked all its containers. -/
def access (id : ContainerId) (missing : LockReply S) (change : Access C S) : Option (LockSystem T C O × LockReply S) :=
  match (s.threads t).current with
  | none => none
  | some g =>
    if g.next.isSome then none
    else
      match g.idToIndex.lookup id with
      | none => some (s, missing)
      | some index =>
        match g.guards[index]?, g.sources[index]? with
        | some held, some source =>
          let (contents, reply, notify) := change (s.memory held)
          let s := { s with memory := Function.update s.memory held contents }
          some (if notify then s.notifyOwner t g source.2.owner else s, reply)
        | _, _ => none

def setItemAccess (slot : Nat) (stack : S) : Access C S := fun contents => (ops.setItem contents slot stack, .changed true, true)

def removeItemAccess (slot : Nat) (amount : Int) : Access C S := fun contents =>
  let (contents, removed) := ops.removeItem contents slot amount
  (contents, .removed (some removed), !ops.isEmpty removed)

def setChangedAccess : Access C S := fun contents => (ops.setChanged contents, .changed true, true)

/-- `None` where the thread cannot take the step now. -/
def exec (s : LockSystem T C O) (t : T) : LockAction C S O → Option (LockSystem T C O × LockReply S)
  | .unpack id contents =>
    -- loot is rolled under the lock of the container alone, before any other is taken
    if (s.threads t).current.isSome ∨ (s.locked.lookup id).isSome then none
    else some ({ s with memory := Function.update s.memory id contents }, .done)
  | .lockAll containers =>
    if (s.threads t).current.isSome then none
    else some (s.setThread t ⟨some (.new containers), (s.threads t).suspended⟩, .done)
  | .acquire =>
    match (s.threads t).current with
    | none => none
    | some g =>
      match g.next with
      | none => none
      | some id =>
        if (s.locked.lookup id).isSome then none
        else some ({ s with locked := s.locked.insert id t }.setThread t
          ⟨some { g with guards := g.guards ++ [id] }, (s.threads t).suspended⟩, .done)
  | .setItem id slot stack => s.access t id (.changed false) (setItemAccess ops slot stack)
  | .removeItem id slot amount => s.access t id (.removed none) (removeItemAccess ops slot amount)
  | .setChanged id => s.access t id (.changed false) (setChangedAccess ops)
  | .callbackDone =>
    match (s.threads t).current, (s.threads t).suspended with
    | none, g :: rest => some (s.setThread t ⟨some g, rest⟩, .done)
    | _, _ => none
  | .drop =>
    match (s.threads t).current with
    | none => none
    | some g =>
      if g.next.isSome then none
      else some ((s.release g).setThread t ⟨none, (s.threads t).suspended⟩, .done)

def Step (s : LockSystem T C O) (event : T × LockAction C S O) (s' : LockSystem T C O) : Prop :=
  ∃ reply, s.exec ops event.1 event.2 = some (s', reply)

/-! ## What every step keeps -/

/-- The guards of all threads are in order, and a container is locked by a thread exactly when its guard has it. -/
structure Consistent (s : LockSystem T C O) : Prop where
  current : ∀ t g, (s.threads t).current = some g → g.WellFormed
  suspended : ∀ t g, g ∈ (s.threads t).suspended → g.WellFormed ∧ g.guards = []
  held : ∀ id t, s.locked.lookup id = some t ↔ ∃ g, (s.threads t).current = some g ∧ id ∈ g.guards

/-- The parts that steps are made of. -/
inductive Move (s : LockSystem T C O) (t : T) : LockSystem T C O → Prop
  | write {id : ContainerId} {contents : C} (hid : s.locked.lookup id = none ∨ s.locked.lookup id = some t) :
      Move s t { s with memory := Function.update s.memory id contents }
  | opened {containers : List (ContainerRef O)} (hidle : (s.threads t).current = none) :
      Move s t (s.setThread t ⟨some (.new containers), (s.threads t).suspended⟩)
  | acquired {g : ContainerLockGuard O} {id : ContainerId} (hcurrent : (s.threads t).current = some g)
      (hnext : g.next = some id) (hfree : s.locked.lookup id = none) :
      Move s t ({ s with locked := s.locked.insert id t }.setThread t
        ⟨some { g with guards := g.guards ++ [id] }, (s.threads t).suspended⟩)
  | closed {g : ContainerLockGuard O} {suspended : List (ContainerLockGuard O)} (hcurrent : (s.threads t).current = some g)
      (hsuspended : suspended = (s.threads t).suspended ∨ suspended = { g with guards := [] } :: (s.threads t).suspended) :
      Move s t ((s.release g).setThread t ⟨none, suspended⟩)
  | resumed {g : ContainerLockGuard O} {rest : List (ContainerLockGuard O)} (hidle : (s.threads t).current = none)
      (hsuspended : (s.threads t).suspended = g :: rest) : Move s t (s.setThread t ⟨some g, rest⟩)

variable {ops} {s} {t} {s' : LockSystem T C O} {u : T} {id : ContainerId}

omit [DecidableEq T] in
theorem lookup_release (g : ContainerLockGuard O) (id : ContainerId) :
    (s.release g).locked.lookup id = if id ∈ g.guards then none else s.locked.lookup id := by
  unfold release
  dsimp only
  generalize s.locked = locked
  induction g.guards generalizing locked with
  | nil => simp
  | cons held rest ih =>
    rw [List.foldl_cons, ih, AssocList.lookup_erase]
    by_cases hrest : id ∈ rest
    · rw [if_pos hrest, if_pos (List.mem_cons_of_mem held hrest)]
    · by_cases hid : id = held
      · simp [hid]
      · simp [hid, hrest]

@[simp]
theorem threads_setThread (state : ThreadState O) (u : T) :
    (s.setThread t state).threads u = if u = t then state else s.threads u := by
  unfold setThread
  exact Function.update_apply s.threads t state u

/-- A step of one thread is consistent if its own guard is, and the others keep their locks. -/
theorem Consistent.of_thread (h : Consistent s) {state : ThreadState O} (locked : AssocList ContainerId T)
    (hcurrent : ∀ g, state.current = some g → g.WellFormed)
    (hsuspended : ∀ g ∈ state.suspended, g.WellFormed ∧ g.guards = [])
    (hown : ∀ id, locked.lookup id = some t ↔ ∃ g, state.current = some g ∧ id ∈ g.guards)
    (hothers : ∀ id u, u ≠ t → (locked.lookup id = some u ↔ s.locked.lookup id = some u)) :
    Consistent ({ s with locked := locked }.setThread t state) where
  current := by
    intro u g hg
    rw [threads_setThread] at hg
    by_cases hu : u = t
    · rw [if_pos hu] at hg
      exact hcurrent g hg
    · rw [if_neg hu] at hg
      exact h.current u g hg
  suspended := by
    intro u g hg
    rw [threads_setThread] at hg
    by_cases hu : u = t
    · rw [if_pos hu] at hg
      exact hsuspended g hg
    · rw [if_neg hu] at hg
      exact h.suspended u g hg
  held := by
    intro id u
    rw [threads_setThread]
    by_cases hu : u = t
    · rw [if_pos hu, hu]
      exact hown id
    · rw [if_neg hu]
      exact (hothers id u hu).trans (h.held id u)

omit [DecidableEq T] in
theorem Consistent.not_held (h : Consistent s) (hidle : (s.threads t).current = none) (id : ContainerId) :
    s.locked.lookup id ≠ some t := by
  intro hheld
  obtain ⟨g, hg, _⟩ := (h.held id t).mp hheld
  rw [hidle] at hg
  cases hg

theorem Consistent.move (h : Consistent s) (hmove : Move s t s') : Consistent s' := by
  cases hmove with
  | write hid => exact ⟨h.current, h.suspended, h.held⟩
  | @opened containers hidle =>
    apply h.of_thread _
    · intro g hg
      cases hg
      exact ContainerLockGuard.wellFormed_new containers
    · exact h.suspended t
    · -- the new guard has locked nothing
      intro id
      refine iff_of_false (h.not_held hidle id) ?_
      simp [ContainerLockGuard.new]
    · exact fun id u _ => Iff.rfl
  | @acquired g id hcurrent hnext hfree =>
    apply h.of_thread _
    · intro g' hg
      cases hg
      exact (h.current t g hcurrent).acquire hnext
    · exact h.suspended t
    · intro id'
      have hheld := h.held id' t
      rw [hcurrent] at hheld
      rw [AssocList.lookup_insert]
      by_cases hid : id' = id
      · simp [hid]
      · rw [if_neg hid, hheld]
        simp [hid]
    · intro id' u hu
      rw [AssocList.lookup_insert]
      by_cases hid : id' = id
      · rw [if_pos hid, hid, hfree]
        exact iff_of_false (fun heq => hu (Option.some.inj heq).symm) (by simp)
      · rw [if_neg hid]
  | @closed g suspended hcurrent hsuspended =>
    apply h.of_thread (s.release g).locked
    · intro g' hg
      cases hg
    · intro g' hg
      rcases hsuspended with heq | heq
      · exact h.suspended t g' (heq ▸ hg)
      · rcases List.mem_cons.mp (heq ▸ hg) with heq | hg
        · rw [heq]
          exact ⟨(h.current t g hcurrent).release, rfl⟩
        · exact h.suspended t g' hg
    · intro id
      rw [lookup_release]
      refine iff_of_false ?_ (by simp)
      by_cases hid : id ∈ g.guards
      · simp [hid]
      · rw [if_neg hid, h.held, hcurrent]
        simp [hid]
    · intro id u hu
      rw [lookup_release]
      by_cases hid : id ∈ g.guards
      · -- what `t` held no other thread held
        rw [if_pos hid, (h.held id t).mpr ⟨g, hcurrent, hid⟩]
        exact iff_of_false (by simp) fun heq => hu (Option.some.inj heq).symm
      · rw [if_neg hid]
  | @resumed g rest hidle hsuspended =>
    obtain ⟨hg, hempty⟩ := h.suspended t g (hsuspended ▸ List.mem_cons_self)
    apply h.of_thread _
    · intro g' hg'
      cases hg'
      exact hg
    · intro g' hg'
      exact h.suspended t g' (hsuspended ▸ List.mem_cons_of_mem g hg')
    · intro id
      refine iff_of_false (h.not_held hidle id) ?_
      simp [hempty]
    · exact fun id u _ => Iff.rfl

/-! ## Accesses -/

/-- The owner of the reference a guard keeps for a container. -/
def ownerOf (g : ContainerLockGuard O) (id : ContainerId) : Option O :=
  (g.sources.find? fun source => decide (source.1 = id)).bind fun source => source.2.owner

/-- The index leads to the container that was asked for, and never out of bounds. -/
theorem access_eq (h : Consistent s) {g : ContainerLockGuard O} (hcurrent : (s.threads t).current = some g)
    (hready : g.next = none) (id : ContainerId) (missing : LockReply S) (change : Access C S) :
    s.access t id missing change =
      if id ∈ g.ids then
        let written := { s with memory := Function.update s.memory id (change (s.memory id)).1 }
        some (if (change (s.memory id)).2.2 then written.notifyOwner t g (ownerOf g id) else written, (change (s.memory id)).2.1)
      else some (s, missing) := by
  have hwell := h.current t g hcurrent
  unfold access
  rw [hcurrent]
  dsimp only
  rw [hready, if_neg (by simp)]
  by_cases hid : id ∈ g.ids
  · obtain ⟨i, hi⟩ := List.mem_iff_getElem?.mp hid
    have hindex : g.idToIndex.lookup id = some i := (hwell.index id i).mpr hi
    have hguard : g.guards[i]? = some id := by rw [hwell.ready hready, hi]
    unfold ContainerLockGuard.ids at hi
    rw [List.getElem?_map] at hi
    obtain ⟨source, hsource, hkey⟩ := Option.map_eq_some_iff.mp hi
    have hnodup : (g.sources.map Prod.fst).Nodup := hwell.increasing.imp fun hlt => hlt.ne
    have howner : ownerOf g id = source.2.owner := by
      have hmem : source ∈ g.sources.filter fun x => decide (x.1 = id) :=
        List.mem_filter.mpr ⟨List.mem_of_getElem? hsource, by simpa using hkey⟩
      unfold ownerOf
      cases hfind : g.sources.find? fun x => decide (x.1 = id) with
      | none =>
        have hnone := List.find?_eq_none.mp hfind source (List.mem_filter.mp hmem).1
        simp [hkey] at hnone
      | some found =>
        have hfound := List.find?_some hfind
        have heq := List.inj_on_of_nodup_map hnodup (List.mem_of_find?_eq_some hfind) (List.mem_filter.mp hmem).1
          ((of_decide_eq_true hfound).trans hkey.symm)
        rw [heq]
        rfl
    rw [hindex, if_pos hid]
    dsimp only
    rw [hguard, hsource, howner]
  · have hindex : g.idToIndex.lookup id = none := by
      rw [Option.eq_none_iff_forall_ne_some]
      intro i hi
      exact hid (List.mem_of_getElem? ((hwell.index id i).mp hi))
    rw [hindex, if_neg hid]

theorem access_moves (h : Consistent s) {missing : LockReply S} {change : Access C S} {reply : LockReply S}
    (haccess : s.access t id missing change = some (s', reply)) : Relation.ReflTransGen (fun s s' => Move s t s') s s' := by
  cases hcurrent : (s.threads t).current with
  | none =>
    unfold access at haccess
    rw [hcurrent] at haccess
    cases haccess
  | some g =>
    by_cases hready : g.next = none
    · rw [access_eq h hcurrent hready] at haccess
      by_cases hid : id ∈ g.ids
      · rw [if_pos hid] at haccess
        have hheld : s.locked.lookup id = some t :=
          (h.held id t).mpr ⟨g, hcurrent, by rw [(h.current t g hcurrent).ready hready]; exact hid⟩
        have hwrite : Move s t { s with memory := Function.update s.memory id (change (s.memory id)).1 } :=
          Move.write (Or.inr hheld)
        obtain ⟨heq, _⟩ := Prod.mk.inj (Option.some.inj haccess)
        rw [← heq]
        by_cases hnotify : (change (s.memory id)).2.2
        · rw [if_pos hnotify]
          cases ownerOf g id with
          | none => exact Relation.ReflTransGen.single hwrite
          | some owner =>
            exact (Relation.ReflTransGen.single hwrite).tail (Move.closed hcurrent (Or.inr rfl))
        · rw [if_neg hnotify]
          exact Relation.ReflTransGen.single hwrite
      · rw [if_neg hid] at haccess
        cases haccess
        exact Relation.ReflTransGen.refl
    · unfold access at haccess
      rw [hcurrent] at haccess
      dsimp only at haccess
      rw [if_pos (Option.isSome_iff_ne_none.mpr hready)] at haccess
      cases haccess

/-- Every step of a thread is made of its moves. -/
theorem Step.moves (h : Consistent s) {event : T × LockAction C S O} (hstep : Step ops s event s') :
    Relation.ReflTransGen (fun s s' => Move s event.1 s') s s' := by
  obtain ⟨t, action⟩ := event
  obtain ⟨reply, hexec⟩ := hstep
  unfold exec at hexec
  cases action with
  | unpack id contents =>
    dsimp only at hexec
    split at hexec
    · cases hexec
    · rename_i hguard
      rw [not_or, Option.not_isSome_iff_eq_none, Option.not_isSome_iff_eq_none] at hguard
      cases hexec
      exact Relation.ReflTransGen.single (Move.write (Or.inl hguard.2))
  | lockAll containers =>
    dsimp only at hexec
    split at hexec
    · cases hexec
    · rename_i hidle
      cases hexec
      exact Relation.ReflTransGen.single (Move.opened (Option.not_isSome_iff_eq_none.mp hidle))
  | acquire =>
    dsimp only at hexec
    split at hexec
    · cases hexec
    · rename_i g hcurrent
      split at hexec
      · cases hexec
      · rename_i id hnext
        split at hexec
        · cases hexec
        · rename_i hfree
          cases hexec
          exact Relation.ReflTransGen.single (Move.acquired hcurrent hnext (Option.not_isSome_iff_eq_none.mp hfree))
  | setItem id slot stack => exact access_moves h hexec
  | removeItem id slot amount => exact access_moves h hexec
  | setChanged id => exact access_moves h hexec
  | callbackDone =>
    dsimp only at hexec
    split at hexec
    · rename_i g rest hidle hsuspended
      cases hexec
      exact Relation.ReflTransGen.single (Move.resumed hidle hsuspended)
    · cases hexec
  | drop =>
    dsimp only at hexec
    split at hexec
    · cases hexec
    · rename_i g hcurrent
      split at hexec
      · cases hexec
      · cases hexec
        exact Relation.ReflTransGen.single (Move.closed hcurrent (Or.inl rfl))

/-- A property that every move keeps is kept by every step. -/
theorem Step.invariant {event : T × LockAction C S O} {I : LockSystem T C O → Prop}
    (hmove : ∀ s s' : LockSystem T C O, Consistent s → I s → Move s event.1 s' → I s')
    (hstep : Step ops s event s') (h : Consistent s) (hi : I s) : Consistent s' ∧ I s' := by
  have hmoves := hstep.moves h
  clear hstep
  induction hmoves with
  | refl => exact ⟨h, hi⟩
  | tail _ hlast ih => exact ⟨ih.1.move hlast, hmove _ _ ih.1 ih.2 hlast⟩

omit [DecidableEq T] in
theorem consistent_init (memory : ContainerId → C) : Consistent (init memory : LockSystem T C O) where
  current := by simp [init]
  suspended := by simp [init]
  held := by simp [init]

theorem run_consistent {memory : ContainerId → C} {events : List (T × LockAction C S O)}
    (h : Run (Step ops) (init memory) events s) : Consistent s :=
  h.invariant (consistent_init memory) fun _ _ _ hs hstep =>
    (hstep.invariant (I := fun _ => True) (fun _ _ _ _ _ => trivial) hs trivial).1

/-! ## No deadlock -/

/-- The container a thread has to lock next. -/
def waits (s : LockSystem T C O) (t : T) : Option ContainerId := (s.threads t).current.bind ContainerLockGuard.next

def holder (s : LockSystem T C O) (id : ContainerId) : Option T := s.locked.lookup id

omit [DecidableEq T] in
theorem Consistent.waitsUpwards (h : Consistent s) : WaitsUpwards s.waits s.holder := by
  intro t r r' hr hr'
  obtain ⟨g, hcurrent, hnext⟩ := Option.bind_eq_some_iff.mp hr
  obtain ⟨g', hcurrent', hheld⟩ := (h.held r' t).mp hr'
  rw [hcurrent] at hcurrent'
  cases hcurrent'
  exact (h.current t g hcurrent).lt_next hnext hheld

omit [DecidableEq T] in
theorem finite_held (s : LockSystem T C O) : Set.Finite {r | s.holder r ≠ none} := by
  apply Set.Finite.subset s.locked.keys.toFinset.finite_toSet
  intro r hr
  rw [Finset.mem_coe, List.mem_toFinset, ← AList.mem_keys, ← AList.lookup_isSome]
  exact Option.isSome_iff_ne_none.mpr hr

theorem exists_acquire {g : ContainerLockGuard O} (hcurrent : (s.threads t).current = some g) (hnext : g.next = some id)
    (hfree : s.locked.lookup id = none) : ∃ s', Step ops s (t, .acquire) s' := by
  refine ⟨{ s with locked := s.locked.insert id t }.setThread t
    ⟨some { g with guards := g.guards ++ [id] }, (s.threads t).suspended⟩, .done, ?_⟩
  unfold exec
  dsimp only
  rw [hcurrent]
  dsimp only
  rw [hnext]
  dsimp only
  rw [hfree]
  exact if_neg Bool.false_ne_true

theorem exists_drop {g : ContainerLockGuard O} (hcurrent : (s.threads t).current = some g) (hready : g.next = none) :
    ∃ s', Step ops s (t, .drop) s' := by
  refine ⟨(s.release g).setThread t ⟨none, (s.threads t).suspended⟩, .done, ?_⟩
  unfold exec
  dsimp only
  rw [hcurrent]
  dsimp only
  rw [hready]
  exact if_neg Bool.false_ne_true

/-- In every interleaving a thread without a guard in use, and so every owner callback, runs with no container
locked, no circle of threads wait for each other, and whoever waits waits for a thread that can lock its next
container or let its guard go. -/
theorem no_deadlock {ops : ContainerOps C S} {memory : ContainerId → C} {events : List (T × LockAction C S O)}
    {s : LockSystem T C O} (h : Run (Step ops) (init memory) events s) (t : T) :
    ((s.threads t).current = none → ∀ id, s.holder id ≠ some t) ∧
    ¬ Relation.TransGen (WaitsFor s.waits s.holder) t t ∧
    (s.waits t ≠ none → ∃ u, Relation.ReflTransGen (WaitsFor s.waits s.holder) t u ∧
      ((∃ s', Step ops s (u, .acquire) s') ∨ ∃ s', Step ops s (u, .drop) s')) := by
  have hconsistent := run_consistent h
  refine ⟨fun hidle id => hconsistent.not_held hidle id, hconsistent.waitsUpwards.acyclic t, ?_⟩
  intro hwaits
  obtain ⟨u, hchain, hfree⟩ := hconsistent.waitsUpwards.chain_ends (finite_held s) t
  refine ⟨u, hchain, ?_⟩
  cases hu : s.waits u with
  | some id =>
    obtain ⟨g, hcurrent, hnext⟩ := Option.bind_eq_some_iff.mp hu
    exact Or.inl (exists_acquire hcurrent hnext (hfree id hu))
  | none =>
    -- the end of the chain is not the start, so it holds a container and has locked all of its guard
    right
    rcases Relation.ReflTransGen.cases_tail hchain with heq | ⟨v, _, r, _, hheld⟩
    · rw [← heq] at hwaits
      exact absurd hu hwaits
    · obtain ⟨g, hcurrent, _⟩ := (hconsistent.held r u).mp hheld
      unfold waits at hu
      rw [hcurrent, Option.bind_some] at hu
      exact exists_drop hcurrent hu

/-! ## Isolation -/

/-- What a thread has locked, no other changes or takes. -/
structure Isolated (t : T) (s₀ s : LockSystem T C O) : Prop where
  state : s.threads t = s₀.threads t
  kept : ∀ id, s₀.locked.lookup id = some t → s.locked.lookup id = some t ∧ s.memory id = s₀.memory id

theorem Isolated.move {s₀ : LockSystem T C O} (hconsistent : Consistent s) (h : Isolated t s₀ s) (hu : u ≠ t)
    (hmove : Move s u s') : Isolated t s₀ s' := by
  cases hmove with
  | @write id contents hid =>
    refine ⟨h.state, ?_⟩
    intro id' hheld
    obtain ⟨hlocked, hmemory⟩ := h.kept id' hheld
    refine ⟨hlocked, ?_⟩
    dsimp only
    rw [Function.update_of_ne]
    · exact hmemory
    · intro heq
      rw [← heq, hlocked] at hid
      rcases hid with hnone | hsome
      · cases hnone
      · exact hu (Option.some.inj hsome).symm
  | opened hidle =>
    refine ⟨?_, h.kept⟩
    rw [threads_setThread, if_neg (Ne.symm hu)]
    exact h.state
  | @acquired g id hcurrent hnext hfree =>
    refine ⟨?_, ?_⟩
    · rw [threads_setThread, if_neg (Ne.symm hu)]
      exact h.state
    · intro id' hheld
      obtain ⟨hlocked, hmemory⟩ := h.kept id' hheld
      refine ⟨?_, hmemory⟩
      show (s.locked.insert id u).lookup id' = some t
      rw [AssocList.lookup_insert, if_neg]
      · exact hlocked
      · intro heq
        rw [heq, hfree] at hlocked
        cases hlocked
  | @closed g suspended hcurrent hsuspended =>
    refine ⟨?_, ?_⟩
    · rw [threads_setThread, if_neg (Ne.symm hu)]
      exact h.state
    · intro id hheld
      obtain ⟨hlocked, hmemory⟩ := h.kept id hheld
      refine ⟨?_, hmemory⟩
      show (s.release g).locked.lookup id = some t
      rw [lookup_release, if_neg]
      · exact hlocked
      · intro hid
        rw [(hconsistent.held id u).mpr ⟨g, hcurrent, hid⟩] at hlocked
        exact hu (Option.some.inj hlocked)
  | resumed hidle hsuspended =>
    refine ⟨?_, h.kept⟩
    rw [threads_setThread, if_neg (Ne.symm hu)]
    exact h.state

omit [DecidableEq T] in
theorem mem_ids {g : ContainerLockGuard O} {containers : List (ContainerRef O)} (hsources : g.sources = prepare containers)
    (id : ContainerId) : id ∈ g.ids ↔ ∃ c ∈ containers, c.id = id := by
  have hfind := find?_prepare containers id
  unfold ContainerLockGuard.ids
  rw [hsources]
  constructor
  · intro hid
    by_contra hnot
    have hnone : (containers.find? fun c => decide (c.id = id)) = none := by
      rw [List.find?_eq_none]
      intro c hc heq
      exact hnot ⟨c, hc, of_decide_eq_true heq⟩
    rw [hnone] at hfind
    obtain ⟨source, hsource, hkey⟩ := List.mem_map.mp hid
    have hmissing := List.find?_eq_none.mp hfind source hsource
    simp [hkey] at hmissing
  · intro hc
    obtain ⟨c, hc, heq⟩ := hc
    cases hfirst : containers.find? fun c => decide (c.id = id) with
    | none =>
      have hmissing := List.find?_eq_none.mp hfirst c hc
      simp [heq] at hmissing
    | some first =>
      rw [hfirst] at hfind
      have hkey := List.find?_some hfind
      exact List.mem_map.mpr ⟨_, List.mem_of_find?_eq_some hfind, of_decide_eq_true hkey⟩

/-- Contents are numbers of items; a container has one slot. -/
def numberOps : ContainerOps Nat Nat where
  setItem := fun _ _ stack => stack
  removeItem := fun contents _ amount => (contents - amount.toNat, min contents amount.toNat)
  setChanged := fun contents => contents
  isEmpty := fun stack => decide (stack = 0)

def chest : ContainerRef Unit := ⟨1, some ()⟩

def hopper : ContainerRef Unit := ⟨2, none⟩

/-- Each names the containers in its own order; the second thread has to wait for the first container. -/
def crossing : List (Nat × LockAction Nat Nat Unit) :=
  [(0, .lockAll [hopper, chest]), (1, .lockAll [chest, hopper]), (0, .acquire), (0, .acquire)]

def runFrom (s : LockSystem Nat Nat Unit) (events : List (Nat × LockAction Nat Nat Unit)) : Option (LockSystem Nat Nat Unit) :=
  events.foldlM (fun s event => (s.exec numberOps event.1 event.2).map Prod.fst) s

def crossed : Option (LockSystem Nat Nat Unit) := runFrom (init fun _ => 5) crossing

theorem run_of_runFrom {s s' : LockSystem Nat Nat Unit} {events : List (Nat × LockAction Nat Nat Unit)}
    (h : runFrom s events = some s') : Run (Step numberOps) s events s' := by
  apply Run.of_foldlM _ h
  intro s event s' hexec
  obtain ⟨⟨s'', reply⟩, hstep, rfl⟩ := Option.map_eq_some_iff.mp hexec
  exact ⟨reply, hstep⟩

theorem no_deadlock_crossing : ∃ s : LockSystem Nat Nat Unit, s.waits 1 = some 1 ∧ s.holder 1 = some 0 ∧
    ∃ u, Relation.ReflTransGen (WaitsFor s.waits s.holder) 1 u ∧
      ((∃ s', Step numberOps s (u, .acquire) s') ∨ ∃ s', Step numberOps s (u, .drop) s') := by
  have hreached : (crossed.map fun s => (s.waits 1, s.holder 1)) = some (some 1, some 0) := by decide +kernel
  obtain ⟨s, hs, heq⟩ := Option.map_eq_some_iff.mp hreached
  obtain ⟨hwaits, hholder⟩ := Prod.mk.inj heq
  refine ⟨s, hwaits, hholder, (no_deadlock (run_of_runFrom hs) 1).2.2 ?_⟩
  rw [hwaits]
  exact Option.some_ne_none 1

end LockSystem
end Foton.Lock
