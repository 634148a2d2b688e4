import GraphQL.Fragment.Table
import Mathlib.Data.List.Perm.Subperm
import Mathlib.Logic.Function.Iterate

/-!
# Fragments — walks that share one path

A walk that follows spreads keeps the names of the fragments it is inside of on one
path, which all its calls share: a name is pushed before the body of its fragment and
popped behind it. Here such a walk takes one step after another. What it has still to
do is a stack, of calls to be made and of fragments to be left; what it does at a call
is a parameter (`Handler`).

A walk that enters no fragment whose name is on the path, and otherwise makes smaller
calls, is guarded. Main statement: a guarded walk keeps its path (`KeepsPath`). At
every step the path has no name twice and only names of fragments, every call returns
with the path that it was given, and the walk ends.
-/

namespace GraphQL

namespace PathWalk

variable {κ α : Type}

/-- What a walk does at a call: what it has noted then, the name of the fragment
whose body it enters, if it enters one, and the calls that it makes there. -/
structure Handled (κ α : Type) where
  noted : α
  entered? : Option String
  calls : List κ

/-- What a walk does at a call, along a path and with what it has noted before. -/
abbrev Handler (κ α : Type) := List String → α → κ → Handled κ α

/-- Something that a walk has still to do. -/
inductive Task (κ : Type) where
  | call (call : κ)
  /-- Behind the body of a fragment its name is taken off the path. -/
  | leave

/-- The task is to leave a fragment. -/
def Task.isLeave : Task κ → Bool
  | .call _ => false
  | .leave => true

/-- Where a walk is: the path, the last name first, what is still to be done, and
what has been noted. -/
structure State (κ α : Type) where
  path : List String
  pending : List (Task κ)
  noted : α

/-- The number of fragments that the walk is inside of. -/
def State.nesting (state : State κ α) : Nat := state.pending.countP Task.isLeave

/-- What is to be done after a call: the calls that it makes, and then it leaves
the fragment that it has entered. -/
def Handled.tasks (handled : Handled κ α) : List (Task κ) :=
  handled.calls.map .call ++ handled.entered?.toList.map fun _ => .leave

/-- The walk does the first thing that is still to be done. -/
def step (handle : Handler κ α) (state : State κ α) : State κ α :=
  match state.pending with
  | [] => state
  | .leave :: rest => ⟨state.path.tail, rest, state.noted⟩
  | .call call :: rest =>
    let handled := handle state.path state.noted call
    ⟨handled.entered?.toList ++ state.path, handled.tasks ++ rest, handled.noted⟩

/-- The state after a number of steps. -/
def run (handle : Handler κ α) (n : Nat) (state : State κ α) : State κ α := (step handle)^[n] state

variable {handle : Handler κ α} {table : FragmentTable} {size : κ → Nat} {outer : Nat}
  {state final : State κ α} {path : List String} {noted : α}

theorem run_add (handle : Handler κ α) (m n : Nat) (state : State κ α) :
    run handle (m + n) state = run handle n (run handle m state) := by
  rw [run, Nat.add_comm, Function.iterate_add_apply]
  rfl

/-! ## Paths -/

/-- The path has no name twice and only names of fragments, and is longer than some
length by the number of fragments that the walk is inside of. -/
structure State.Sound (table : FragmentTable) (outer : Nat) (state : State κ α) : Prop where
  nodup : state.path.Nodup
  defined : ∀ name ∈ state.path, ∃ fragment, table.get? name = some fragment
  length : state.path.length = outer + state.nesting

/-- A walk enters no fragment whose name is on the path, and one that enters none
makes smaller calls. -/
structure Guarded (table : FragmentTable) (size : κ → Nat) (handle : Handler κ α) : Prop where
  enters : ∀ {path noted call name}, (handle path noted call).entered? = some name →
    name ∉ path ∧ ∃ fragment, table.get? name = some fragment
  smaller : ∀ {path noted call}, (handle path noted call).entered? = none →
    ∀ inner ∈ (handle path noted call).calls, size inner < size call

theorem length_le_size {path : List String} (hn : path.Nodup)
    (hd : ∀ name ∈ path, ∃ fragment, table.get? name = some fragment) :
    path.length ≤ table.size := by
  refine (List.subperm_of_subset hn fun name hm => ?_).length_le
  obtain ⟨fragment, hf⟩ := hd name hm
  exact List.mem_eraseDups.2 (FragmentTable.mem_names_of_get? hf)

theorem State.Sound.nesting_le (h : state.Sound table outer) : state.nesting ≤ table.size := by
  have := length_le_size h.nodup h.defined
  have := h.length
  omega

theorem countP_isLeave_calls (calls : List κ) :
    (calls.map Task.call).countP Task.isLeave = 0 := by
  simp [List.countP_eq_zero, Task.isLeave]

theorem countP_isLeave_tasks (handled : Handled κ α) :
    handled.tasks.countP Task.isLeave = handled.entered?.toList.length := by
  rw [Handled.tasks, List.countP_append, countP_isLeave_calls]
  cases handled.entered? <;> rfl

/-- A step keeps the path sound: it pushes the name of a fragment that is entered and
pops one that is left. -/
theorem State.Sound.step (hg : Guarded table size handle) (h : state.Sound table outer) :
    (step handle state).Sound table outer := by
  obtain ⟨path, pending, noted⟩ := state
  cases pending with
  | nil => exact h
  | cons task rest =>
    cases task with
    | leave =>
      have length : path.length = outer + (Task.leave :: rest).countP Task.isLeave := h.length
      rw [List.countP_cons_of_pos rfl] at length
      refine ⟨h.nodup.tail, fun name hm => h.defined name (List.mem_of_mem_tail hm), ?_⟩
      show path.tail.length = outer + rest.countP Task.isLeave
      rw [List.length_tail, length]
      rfl
    | call call =>
      have length : path.length = outer + (Task.call call :: rest).countP Task.isLeave := h.length
      rw [List.countP_cons_of_neg (by simp [Task.isLeave])] at length
      have entered : ∀ name ∈ (handle path noted call).entered?.toList,
          name ∉ path ∧ ∃ fragment, table.get? name = some fragment :=
        fun name hm => hg.enters (Option.mem_toList.1 hm)
      refine ⟨?_, ?_, ?_⟩
      · show ((handle path noted call).entered?.toList ++ path).Nodup
        cases he : (handle path noted call).entered? with
        | none => exact h.nodup
        | some name => exact List.nodup_cons.2 ⟨(hg.enters he).1, h.nodup⟩
      · intro name hm
        rcases List.mem_append.1 hm with hm | hm
        · exact (entered name hm).2
        · exact h.defined name hm
      · show ((handle path noted call).entered?.toList ++ path).length =
          outer + ((handle path noted call).tasks ++ rest).countP Task.isLeave
        rw [List.length_append, List.countP_append, countP_isLeave_tasks, length]
        omega

theorem State.Sound.run (hg : Guarded table size handle) (h : state.Sound table outer) (n : Nat) :
    (run handle n state).Sound table outer := by
  induction n generalizing state with
  | zero => exact h
  | succ n ih => exact ih (h.step hg)

/-! ## Returns -/

/-- The walk gets from one state to another, and before that always has something
to do on top of what is left there. -/
def Completes (handle : Handler κ α) (state final : State κ α) : Prop :=
  ∃ n, run handle n state = final ∧
    ∀ m < n, ∃ task inner, (run handle m state).pending = task :: inner ++ final.pending

theorem Completes.refl (state : State κ α) : Completes handle state state :=
  ⟨0, rfl, fun _ h => absurd h (Nat.not_lt_zero _)⟩

theorem Completes.head (task : Task κ) (inner : List (Task κ))
    (hp : state.pending = task :: inner ++ final.pending)
    (h : Completes handle (step handle state) final) : Completes handle state final := by
  obtain ⟨n, hn, hb⟩ := h
  refine ⟨n + 1, hn, fun m hm => ?_⟩
  cases m with
  | zero => exact ⟨task, inner, hp⟩
  | succ m => exact hb m (Nat.lt_of_succ_lt_succ hm)

theorem Completes.trans {middle : State κ α} {above : List (Task κ)}
    (hp : middle.pending = above ++ final.pending) (h : Completes handle state middle)
    (hr : Completes handle middle final) : Completes handle state final := by
  obtain ⟨m, rfl, hm⟩ := h
  obtain ⟨n, hn, hb⟩ := hr
  refine ⟨m + n, (run_add handle m n state).trans hn, fun k hk => ?_⟩
  by_cases hkm : k < m
  · obtain ⟨task, inner, he⟩ := hm k hkm
    exact ⟨task, inner ++ above, by rw [he, hp]; simp⟩
  · obtain ⟨l, rfl⟩ := Nat.exists_eq_add_of_le (Nat.le_of_not_lt hkm)
    rw [run_add]
    exact hb l (by omega)

/-- What a walk has noted after some calls along a path, each with the calls that it
makes itself. -/
inductive Evaluates (handle : Handler κ α) : List String → α → List κ → α → Prop
  | nil {path : List String} {noted : α} : Evaluates handle path noted [] noted
  | cons {path : List String} {noted inner last : α} {call : κ} {calls : List κ}
      (hc : Evaluates handle ((handle path noted call).entered?.toList ++ path)
        (handle path noted call).noted (handle path noted call).calls inner)
      (hr : Evaluates handle path inner calls last) :
      Evaluates handle path noted (call :: calls) last

/-- A fragment that was entered is left with the path on which it was entered. -/
theorem completes_leave (handle : Handler κ α) (entered? : Option String) (path : List String)
    (rest : List (Task κ)) (noted : α) :
    Completes handle ⟨entered?.toList ++ path, entered?.toList.map (fun _ => .leave) ++ rest, noted⟩
      ⟨path, rest, noted⟩ := by
  cases entered? with
  | none => exact .refl _
  | some name => exact .head .leave [] rfl (.refl _)

/-- **Calls return with the path that they were given.** -/
theorem Evaluates.completes {calls : List κ} {last : α} (h : Evaluates handle path noted calls last)
    (rest : List (Task κ)) :
    Completes handle ⟨path, calls.map .call ++ rest, noted⟩ ⟨path, rest, last⟩ := by
  induction h generalizing rest with
  | nil => exact .refl _
  | @cons path noted inner last call calls _ _ ihc ihr =>
    have inside := ihc ((handle path noted call).entered?.toList.map (fun _ => .leave) ++
      (calls.map .call ++ rest))
    have left := completes_leave handle (handle path noted call).entered? path
      (calls.map .call ++ rest) inner
    refine .head (.call call) (calls.map .call) rfl ?_
    refine Completes.trans rfl ?_ (ihr rest)
    show Completes handle ⟨_, (handle path noted call).tasks ++ (calls.map .call ++ rest), _⟩ _
    rw [Handled.tasks, List.append_assoc]
    exact Completes.trans rfl inside left

theorem exists_evaluates_of_each {calls : List κ} (h : ∀ call ∈ calls, ∀ noted,
    ∃ last, Evaluates handle path noted [call] last) (noted : α) :
    ∃ last, Evaluates handle path noted calls last := by
  induction calls generalizing noted with
  | nil => exact ⟨noted, .nil⟩
  | cons call calls ih =>
    obtain ⟨inner, hc⟩ := h call List.mem_cons_self noted
    obtain ⟨last, hr⟩ := ih (fun other hm => h other (List.mem_cons_of_mem _ hm)) inner
    cases hc with
    | cons hc hn =>
      cases hn
      exact ⟨last, .cons hc hr⟩

/-- Every call of a guarded walk ends: the calls that it makes are smaller, or one name less
is left to be entered. -/
theorem Guarded.exists_evaluates_call (hg : Guarded table size handle) (path : List String)
    (noted : α) (call : κ) : ∃ last, Evaluates handle path noted [call] last := by
  have calls : ∃ last, Evaluates handle ((handle path noted call).entered?.toList ++ path)
      (handle path noted call).noted (handle path noted call).calls last := by
    refine exists_evaluates_of_each (fun inner hm noted' => ?_) _
    cases he : (handle path noted call).entered? with
    | none =>
      have := hg.smaller he inner hm
      exact hg.exists_evaluates_call path noted' inner
    | some name =>
      obtain ⟨hn, fragment, hf⟩ := hg.enters he
      have := FragmentTable.unvisited_cons_lt hf hn
      exact hg.exists_evaluates_call (name :: path) noted' inner
  obtain ⟨last, h⟩ := calls
  exact ⟨last, .cons h .nil⟩
termination_by (table.unvisited path, size call)

/-- **Every guarded walk ends.** -/
theorem Guarded.exists_evaluates (hg : Guarded table size handle) (path : List String)
    (calls : List κ) (noted : α) : ∃ last, Evaluates handle path noted calls last :=
  exists_evaluates_of_each (fun call _ noted => hg.exists_evaluates_call path noted call) noted

/-! ## Whole walks -/

/-- The start of a walk with some calls to be made along a path. -/
def State.start (path : List String) (calls : List κ) (noted : α) : State κ α :=
  ⟨path, calls.map .call, noted⟩

theorem State.Sound.start {calls : List κ} (hn : path.Nodup)
    (hd : ∀ name ∈ path, ∃ fragment, table.get? name = some fragment) :
    (State.start path calls noted).Sound table path.length :=
  ⟨hn, hd, by rw [State.nesting, State.start, countP_isLeave_calls, Nat.add_zero]⟩

/-- From its start on a walk keeps its path. The path is sound at every step, so that
the walk is never inside of more fragments than there are names; every call, and every
row of calls, returns with the path that it was given; and the walk ends with what is
noted last. -/
structure KeepsPath (table : FragmentTable) (outer : Nat) (handle : Handler κ α)
    (start : State κ α) (last : α) : Prop where
  sound : ∀ n, (run handle n start).Sound table outer
  nested : ∀ n, (run handle n start).nesting ≤ table.size
  returns : ∀ n (row : List κ) rest, (run handle n start).pending = row.map .call ++ rest →
    ∃ noted, Completes handle (run handle n start) ⟨(run handle n start).path, rest, noted⟩
  ends : ∃ n, run handle n start = ⟨start.path, [], last⟩

/-- Every guarded walk keeps its path. -/
theorem Guarded.keepsPath (hg : Guarded table size handle) {calls : List κ} {last : α}
    (hs : (State.start path calls noted).Sound table outer)
    (he : Evaluates handle path noted calls last) :
    KeepsPath table outer handle (.start path calls noted) last where
  sound := hs.run hg
  nested n := (hs.run hg n).nesting_le
  returns n row rest hp := by
    generalize run handle n (.start path calls noted) = state at hp
    obtain ⟨path, pending, noted⟩ := state
    obtain ⟨last, h⟩ := hg.exists_evaluates path row noted
    cases hp
    exact ⟨last, h.completes rest⟩
  ends := by
    obtain ⟨n, hn, -⟩ := he.completes []
    rw [List.append_nil] at hn
    exact ⟨n, hn⟩

end PathWalk

end GraphQL
