import DocStore.Proofs.Client
import Mathlib.Data.List.Basic

/-!
# What a step asks of a store

A store is watched by keeping each request together with its answer (`Datastore.watched`).  What a
step asks in a run, and how the run ends, is its `Course`: either every request succeeds, and the
step succeeds or refuses to go on by itself; or a request fails, which is then the last one, and the
step ends with what it makes of the failure.

Courses are put together along the step (`Course.bind`).  A step that is silent, or that fails
before it asks for anything, has a course by the equations of its run.
-/

namespace DocStore

/-! ## Watched stores -/

/-- A request to a store, and the answer. -/
inductive Exchange
  | get (key : DocumentKey) (answer : Outcome Snapshot)
  | query (q : StoreQuery) (answer : Outcome (List Snapshot))
  | collections (key : DocumentKey) (answer : Outcome (List String))
  | commit (writes : List Write) (answer : Outcome Unit)

namespace Exchange

/-- The failure that the store has answered with, if any. -/
def failure? : Exchange → Option Error
  | get _ (.error e) | query _ (.error e) | collections _ (.error e) | commit _ (.error e) => some e
  | _ => none

/-- The request is a commit. -/
def isCommit : Exchange → Bool
  | commit _ _ => true
  | _ => false

/-- The writes of a commit, whether or not it succeeds. -/
def sent? : Exchange → Option (List Write)
  | commit writes _ => some writes
  | _ => none

/-- The writes of a commit that succeeds. -/
def applied? : Exchange → Option (List Write)
  | commit writes (.ok ()) => some writes
  | _ => none

/-- Where no request fails, the commits that are sent succeed. -/
theorem filterMap_sent_eq {asked : List Exchange} (h : ∀ y ∈ asked, y.failure? = none) :
    asked.filterMap sent? = asked.filterMap applied? := by
  refine List.filterMap_congr fun y hy => ?_
  have hgranted := h y hy
  cases y with
  | commit writes answer =>
      cases answer with
      | ok => rfl
      | error e => cases hgranted
  | _ => rfl

/-- The documents that answer a query have the keys of documents. -/
def HasDocumentKeys : Exchange → Prop
  | query _ (.ok documents) => ∀ s ∈ documents, s.key.path.isDocument = true
  | _ => True

instance : DecidablePred HasDocumentKeys
  | query _ (.ok documents) =>
      inferInstanceAs (Decidable (∀ s ∈ documents, s.key.path.isDocument = true))
  | query _ (.error _) | get _ _ | collections _ _ | commit _ _ => .isTrue trivial

end Exchange

/-- A store, and the exchanges with it in their order. -/
structure Watched (σ : Type) where
  store : σ
  exchanges : List Exchange := []

/-- A request whose answer is kept. -/
def Watched.keep {σ α : Type} (exchange : Outcome α → Exchange) (a : Action σ α) :
    Action (Watched σ) α :=
  Action.ofFn fun w =>
    let (answer, store) := a.runOn w.store
    (answer, { store, exchanges := w.exchanges ++ [exchange answer] })

/-- The store that is watched. -/
def Datastore.watched {σ : Type} (ds : Datastore σ) : Datastore (Watched σ) where
  get key := Watched.keep (.get key) (ds.get key)
  query q := Watched.keep (.query q) (ds.query q)
  collections key := Watched.keep (.collections key) (ds.collections key)
  commit writes := Watched.keep (.commit writes) (ds.commit writes)
  rounds w := ds.rounds w.store

/-- The exchanges of a client with its store. -/
def Client.exchanges {σ : Type} (c : Client (Watched σ)) : List Exchange := c.store.exchanges

/-! ## Courses -/

section Courses

variable {σ τ α β : Type}

/-- How a run ends in which a step asks for something: `allowed` tells after which exchanges the
step may refuse to go on, and `shown` what it makes of a failure of the store. -/
inductive Ending (allowed : List Exchange → Prop) (shown : List Exchange → Error → Error → Prop) :
    List Exchange → Outcome α → Prop
  /-- All requests succeed, and so does the step. -/
  | done {asked : List Exchange} {x : α} (granted : ∀ y ∈ asked, y.failure? = none) :
      Ending allowed shown asked (.ok x)
  /-- All requests succeed, but the step fails. -/
  | refused {asked : List Exchange} {e : Error} (granted : ∀ y ∈ asked, y.failure? = none)
      (h : allowed asked) : Ending allowed shown asked (.error e)
  /-- A request fails, and ends the step. -/
  | failed {before : List Exchange} {last : Exchange} {e e' : Error}
      (granted : ∀ y ∈ before, y.failure? = none) (failure : last.failure? = some e)
      (h : shown (before ++ [last]) e e') : Ending allowed shown (before ++ [last]) (.error e')

/-- What a step asks in a run from a state, and how the run ends. -/
def Course (seen : τ → List Exchange) (allowed : List Exchange → Prop)
    (shown : List Exchange → Error → Error → Prop) (a : Action τ α) (s : τ) : Prop :=
  ∃ asked, seen (a.runOn s).2 = seen s ++ asked ∧ Ending allowed shown asked (a.runOn s).1

variable {seen : τ → List Exchange} {allowed allowed' : List Exchange → Prop}
  {shown shown' : List Exchange → Error → Error → Prop} {a : Action τ α} {f : α → Action τ β}
  {s t : τ} {x : α} {e : Error}

/-- A course allows for more. -/
theorem Course.mono (h : Course seen allowed shown a s)
    (hallowed : ∀ asked, allowed asked → allowed' asked)
    (hshown : ∀ asked e e', shown asked e e' → shown' asked e e') :
    Course seen allowed' shown' a s := by
  obtain ⟨asked, hseen, hends⟩ := h
  refine ⟨asked, hseen, ?_⟩
  generalize (a.runOn s).1 = outcome at hends ⊢
  cases hends with
  | done granted => exact .done granted
  | refused granted h => exact .refused granted (hallowed _ h)
  | failed granted failure h => exact .failed granted failure (hshown _ _ _ h)

/-- A step that asks for nothing and succeeds. -/
theorem Course.silent (h : a.runOn s = (.ok x, t)) (hseen : seen t = seen s) :
    Course seen allowed shown a s := by
  refine ⟨[], ?_, ?_⟩
  · rw [h, hseen, List.append_nil]
  · rw [h]
    exact .done (by simp)

/-- A step that fails before it has asked for anything. -/
theorem Course.refused (h : a.runOn s = (.error e, t)) (hseen : seen t = seen s)
    (hallowed : allowed []) : Course seen allowed shown a s := by
  refine ⟨[], ?_, ?_⟩
  · rw [h, hseen, List.append_nil]
  · rw [h]
    exact .refused (by simp) hallowed

/-- **Courses in sequence.**  What comes second goes on from what was asked first. -/
theorem Course.bind (ha : Course seen allowed shown a s)
    (hf : ∀ x t asked, a.runOn s = (.ok x, t) → seen t = seen s ++ asked →
      (∀ y ∈ asked, y.failure? = none) →
      Course seen (fun rest => allowed (asked ++ rest)) (fun rest => shown (asked ++ rest))
        (f x) t) :
    Course seen allowed shown (a >>= f) s := by
  obtain ⟨asked, hseen, hends⟩ := ha
  cases hrun : a.runOn s with
  | mk outcome t =>
    rw [hrun] at hseen hends
    cases hends with
    | @done _ x granted =>
        obtain ⟨rest, hrest, hends⟩ := hf x t asked hrun hseen granted
        rw [Course, Action.runOn_bind_of_ok hrun]
        refine ⟨asked ++ rest, ?_, ?_⟩
        · rw [hrest, hseen, List.append_assoc]
        · generalize ((f x).runOn t).1 = outcome at hends ⊢
          have hall : ∀ {later : List Exchange}, (∀ y ∈ later, y.failure? = none) →
              ∀ y ∈ asked ++ later, y.failure? = none := fun hlater y hy =>
            (List.mem_append.1 hy).elim (granted y) (hlater y)
          cases hends with
          | done later => exact .done (hall later)
          | refused later h => exact .refused (hall later) h
          | failed later failure h =>
              rw [← List.append_assoc] at h ⊢
              exact .failed (hall later) failure h
    | refused granted h =>
        rw [Course, Action.runOn_bind_of_error hrun]
        exact ⟨asked, hseen, .refused granted h⟩
    | failed granted failure h =>
        rw [Course, Action.runOn_bind_of_error hrun]
        exact ⟨_, hseen, .failed granted failure h⟩

/-- After a step that asks for nothing comes the course of the rest. -/
theorem Course.silent_bind (h : a.runOn s = (.ok x, t)) (hseen : seen t = seen s)
    (hf : Course seen allowed shown (f x) t) : Course seen allowed shown (a >>= f) s := by
  obtain ⟨asked, hasked, hends⟩ := hf
  refine ⟨asked, ?_, ?_⟩
  · rw [Action.runOn_bind_of_ok h, hasked, hseen]
  · rw [Action.runOn_bind_of_ok h]
    exact hends

/-- A step that cannot fail and asks for nothing may follow. -/
theorem Course.bind_silent (ha : Course seen allowed shown a s)
    (hf : ∀ x t, ∃ y u, (f x).runOn t = (.ok y, u) ∧ seen u = seen t) :
    Course seen allowed shown (a >>= f) s := by
  refine ha.bind fun x t asked _ _ _ => ?_
  obtain ⟨y, u, hrun, hseen⟩ := hf x t
  exact .silent hrun hseen

/-- The course of a step on a part of the state. -/
theorem Course.onPart {υ : Type} {seen' : υ → List Exchange} {get : υ → τ} {put : τ → υ → υ}
    {u : υ} (ha : Course seen allowed shown a (get u)) (hget : seen' u = seen (get u))
    (hput : ∀ t, seen' (put t u) = seen t) :
    Course seen' allowed shown (Action.onPart get put a) u := by
  obtain ⟨asked, hseen, hends⟩ := ha
  refine ⟨asked, ?_, ?_⟩
  · rw [Action.runOn_onPart, hput, hget, hseen]
  · rw [Action.runOn_onPart]
    exact hends

/-- An outcome that a step goes on from, if there is one. -/
theorem Course.outcome_bind {r : Outcome α} (hallowed : allowed [])
    (hf : ∀ x, r = .ok x → Course seen allowed shown (f x) s) :
    Course seen allowed shown (Action.ofOutcome r >>= f) s := by
  cases r with
  | ok x => exact .silent_bind (Action.runOn_ofOutcome _ _) rfl (hf x rfl)
  | error e => exact .refused (Action.runOn_bind_of_error (Action.runOn_ofOutcome _ _)) rfl hallowed

/-! ## Requests -/

/-- What a request answers is its exchange. -/
theorem Watched.runOn_keep (exchange : Outcome α → Exchange) (b : Action σ α)
    (c : Client (Watched σ)) :
    ∃ answer c', (Client.onStore (Watched.keep exchange b)).runOn c = (answer, c') ∧
      c'.exchanges = c.exchanges ++ [exchange answer] :=
  ⟨_, _, rfl, rfl⟩

section Requests

variable {exchange : Outcome α → Exchange} {b : Action σ α} {c : Client (Watched σ)}
  (hok : ∀ x, (exchange (.ok x)).failure? = none)
  (herror : ∀ e, (exchange (.error e)).failure? = some e)
  (hshown : ∀ e, shown [exchange (.error e)] e e)

include hok herror hshown

/-- A request asks the store once. -/
theorem Course.keep :
    Course Client.exchanges allowed shown (Client.onStore (Watched.keep exchange b)) c := by
  obtain ⟨answer, c', hrun, hseen⟩ := Watched.runOn_keep exchange b c
  refine ⟨[exchange answer], by rw [hrun, hseen], ?_⟩
  rw [hrun]
  cases answer with
  | ok x => exact .done (by simpa using hok x)
  | error e => exact @Ending.failed _ _ _ [] _ _ _ (by simp) (herror e) (hshown e)

/-- A request that succeeds goes on with its answer. -/
theorem Course.keep_bind {f : α → Action (Client (Watched σ)) β}
    (hf : ∀ x t, Course Client.exchanges (fun rest => allowed (exchange (.ok x) :: rest))
      (fun rest => shown (exchange (.ok x) :: rest)) (f x) t) :
    Course Client.exchanges allowed shown (Client.onStore (Watched.keep exchange b) >>= f) c := by
  refine (Course.keep hok herror hshown).bind fun x t asked hx ht _ => ?_
  obtain ⟨answer, c', hrun, hseen⟩ := Watched.runOn_keep exchange b c
  obtain ⟨rfl, rfl⟩ := Prod.mk.inj (hrun.symm.trans hx)
  rw [List.append_cancel_left (ht.symm.trans hseen)]
  exact hf x _

end Requests

end Courses

end DocStore
