import DocStore.Proofs.Mutation.Course

/-!
# Mutations that have applied a commit

A step asks its store for more and more.  It accounts for a result if it gives it only after a
commit of its own has been applied (`Accounts`).  This is put together along the step as its course
is (`Accounts.bind`): a loop over chunks accounts for its end if there is a chunk and each chunk is
committed, and so a mutation accounts for every result but that of having had nothing to do.
-/

namespace DocStore

variable {σ τ υ α β : Type}

/-- One of the exchanges is a commit that has been applied. -/
def HaveApplied (asked : List Exchange) : Prop := ∃ x ∈ asked, x.applied?.isSome = true

theorem HaveApplied.append_left {asked : List Exchange} (h : HaveApplied asked)
    (more : List Exchange) : HaveApplied (asked ++ more) := by
  obtain ⟨x, hx, happlied⟩ := h
  exact ⟨x, List.mem_append_left _ hx, happlied⟩

theorem HaveApplied.append_right {asked : List Exchange} (h : HaveApplied asked)
    (before : List Exchange) : HaveApplied (before ++ asked) := by
  obtain ⟨x, hx, happlied⟩ := h
  exact ⟨x, List.mem_append_right _ hx, happlied⟩

/-- In a run from a state the step asks for more, and gives a result of some kind only if a commit
has been applied among that. -/
def Accounts (seen : τ → List Exchange) (kind : α → Prop) (a : Action τ α) (s : τ) : Prop :=
  ∃ asked, seen (a.runOn s).2 = seen s ++ asked ∧
    ∀ x, (a.runOn s).1 = .ok x → kind x → HaveApplied asked

namespace Accounts

variable {seen : τ → List Exchange} {kind kind' : α → Prop} {a : Action τ α} {s t : τ}

theorem mono (h : Accounts seen kind a s) (hkind : ∀ x, kind' x → kind x) :
    Accounts seen kind' a s := by
  obtain ⟨asked, hseen, haccounts⟩ := h
  exact ⟨asked, hseen, fun x hx hk => haccounts x hx (hkind x hk)⟩

/-- A step with a course asks for more. -/
theorem of_course {allowed : List Exchange → Prop} {shown : List Exchange → Error → Error → Prop}
    (h : Course seen allowed shown a s) (hkind : ∀ x, ¬ kind x) : Accounts seen kind a s := by
  obtain ⟨asked, hseen, -⟩ := h
  exact ⟨asked, hseen, fun x _ hk => (hkind x hk).elim⟩

/-- A step that asks for nothing, and has no result of the kind. -/
theorem silent (hseen : seen (a.runOn s).2 = seen s)
    (hkind : ∀ x, (a.runOn s).1 = .ok x → ¬ kind x) : Accounts seen kind a s :=
  ⟨[], by rw [hseen, List.append_nil], fun x hx hk => (hkind x hx hk).elim⟩

/-- **In sequence.**  What the first step accounts for need not be accounted for again. -/
theorem bind {p : α → Prop} {q : β → Prop} {f : α → Action τ β} (ha : Accounts seen p a s)
    (hf : ∀ x t, a.runOn s = (.ok x, t) → Accounts seen (fun y => q y ∧ ¬ p x) (f x) t) :
    Accounts seen q (a >>= f) s := by
  obtain ⟨asked, hseen, hfirst⟩ := ha
  cases hrun : a.runOn s with
  | mk outcome t =>
    rw [hrun] at hseen hfirst
    cases outcome with
    | error e =>
        rw [Accounts, Action.runOn_bind_of_error hrun]
        exact ⟨asked, hseen, fun x hx => nomatch hx⟩
    | ok x =>
        obtain ⟨more, hmore, hsecond⟩ := hf x t hrun
        rw [Accounts, Action.runOn_bind_of_ok hrun]
        refine ⟨asked ++ more, by rw [hmore, hseen, List.append_assoc], fun y hy hq => ?_⟩
        by_cases hp : p x
        · exact (hfirst x rfl hp).append_left more
        · exact (hsecond y hy ⟨hq, hp⟩).append_right asked

/-- After a step that asks for nothing comes the rest. -/
theorem silent_bind {q : β → Prop} {f : α → Action τ β} {x : α} (h : a.runOn s = (.ok x, t))
    (hseen : seen t = seen s) (hf : Accounts seen q (f x) t) : Accounts seen q (a >>= f) s := by
  rwa [Accounts, Action.runOn_bind_of_ok h, ← hseen]

/-- A step that fails before it has asked for anything. -/
theorem refused {e : Error} (h : a.runOn s = (.error e, t)) (hseen : seen t = seen s) :
    Accounts seen kind a s :=
  .silent (by rw [h, hseen]) fun x hx => by rw [h] at hx; cases hx

/-- A step on a part of the state. -/
theorem onPart {seen' : υ → List Exchange} {get : υ → τ} {put : τ → υ → υ} {u : υ}
    (ha : Accounts seen kind a (get u)) (hget : seen' u = seen (get u))
    (hput : ∀ t, seen' (put t u) = seen t) :
    Accounts seen' kind (Action.onPart get put a) u := by
  obtain ⟨asked, hseen, haccounts⟩ := ha
  refine ⟨asked, ?_, ?_⟩
  · rw [Action.runOn_onPart, hput, hget, hseen]
  · rw [Action.runOn_onPart]
    exact haccounts

/-- A commit accounts for its success. -/
theorem commit (ds : Datastore σ) (writes : List Write) (kind : Unit → Prop)
    (c : Client (Watched σ)) :
    Accounts Client.exchanges kind (Client.onStore (ds.watched.commit writes)) c := by
  obtain ⟨answer, c', hrun, hseen⟩ := Watched.runOn_keep (.commit writes) (ds.commit writes) c
  have hcommit : (Client.onStore (ds.watched.commit writes)).runOn c = (answer, c') := hrun
  rw [Accounts, hcommit]
  refine ⟨_, hseen, fun x hx _ => ⟨_, List.mem_singleton_self _, ?_⟩⟩
  cases x
  cases hx
  rfl

end Accounts

namespace Batcher

variable {ds : Datastore σ} {kind : Unit → Prop} {step : List β → Action (Client (Watched σ)) Unit}

theorem accounts_enter_bind {phase : Phase} {kind : α → Prop}
    {f : Unit → Action (Batcher (Watched σ)) α} {b : Batcher (Watched σ)}
    (hf : ∀ b', Accounts exchanges kind (f ()) b') :
    Accounts exchanges kind (enter phase >>= f) b := by
  obtain ⟨b', henter, hstore, -⟩ := runOn_enter phase b
  exact .silent_bind henter (exchanges_congr hstore) (hf b')

theorem accounts_inChunk (position total : Nat) {a : Action (Client (Watched σ)) Unit}
    (ha : ∀ c, Accounts Client.exchanges kind a c) (b : Batcher (Watched σ)) :
    Accounts exchanges kind (inChunk position total a) b := by
  obtain ⟨asked, hseen, haccounts⟩ := ha b.client
  cases hrun : a.runOn b.client with
  | mk outcome c =>
    rw [hrun] at hseen haccounts
    obtain ⟨b', hchunk, hstore, -⟩ := runOn_inChunk position total hrun
    refine ⟨asked, ?_, fun x hx hk => ?_⟩
    · rw [hchunk, exchanges, Client.exchanges, hstore]
      exact hseen
    · rw [hchunk] at hx
      cases outcome with
      | ok y => exact haccounts x hx hk
      | error e => cases hx

/-- A loop accounts for its end if it has a chunk. -/
theorem accounts_eachChunk (total position : Nat)
    (hstep : ∀ chunk c, Accounts Client.exchanges (fun _ => True) (step chunk) c)
    (chunks : List (List β)) (b : Batcher (Watched σ)) :
    Accounts exchanges (fun _ => chunks ≠ [])
      (eachChunk total (fun position chunk => inChunk position total (step chunk)) position chunks)
      b := by
  induction chunks generalizing position b with
  | nil => exact .silent rfl fun _ _ hne => hne rfl
  | cons chunk rest ih =>
      refine accounts_enter_bind fun b₁ => ?_
      refine (accounts_inChunk position total (hstep chunk) b₁).bind fun _ b₂ _ => ?_
      exact (ih (position + 1) b₂).mono fun _ hboth => (hboth.2 trivial).elim

/-- Writes are accounted for, if there are any. -/
theorem accounts_commitChunks (ds : Datastore σ) {size : Nat} (hsize : 0 < size)
    (writes : List Write) (b : Batcher (Watched σ)) :
    Accounts exchanges (fun _ => writes ≠ []) (commitChunks ds.watched size writes) b := by
  refine accounts_enter_bind fun b₁ => ?_
  have hloop := accounts_eachChunk (chunksOf size writes).length 1
    (fun chunk c => Accounts.commit ds chunk (fun _ => True) c) (chunksOf size writes) b₁
  refine hloop.bind fun _ b₂ _ => ?_
  obtain ⟨b₃, hdone, hstore, -⟩ := runOn_enter .done b₂
  refine .silent (by rw [hdone, exchanges_congr hstore]) fun _ _ hboth => hboth.2 ?_
  rw [chunksOf_of_ne_nil hsize hboth.1]
  exact List.cons_ne_nil _ _

/-- An insertion accounts for the keys that it gives. -/
theorem accounts_insert (ds : Datastore σ) (collection : ResourcePath) {records : List Fields}
    (hsome : records ≠ []) (b : Batcher (Watched σ)) :
    Accounts exchanges (fun _ => True) (insert ds.watched collection records) b := by
  refine accounts_enter_bind fun b₁ => ?_
  cases hcollection : collection.isCollection with
  | false => exact .refused rfl rfl
  | true =>
  have hempty : records.isEmpty = false := by simpa using hsome
  simp only [hempty, Bool.not_true, Bool.false_eq_true, if_false]
  refine accounts_enter_bind fun b₂ => ?_
  rcases runOn_createWrites hcollection records b₂ with
    ⟨-, writes, b₃, hwrites, hstore, hcreates⟩ | ⟨-, e, b₃, hwrites, hstore⟩
  · have hwritten : writes ≠ [] := by
      intro hnil
      subst hnil
      cases hcreates
      exact hsome rfl
    refine .silent_bind hwrites (exchanges_congr hstore) ?_
    refine (accounts_commitChunks ds (by decide) writes b₃).bind fun _ b₄ _ => ?_
    exact .silent rfl fun _ _ hboth => hboth.2 hwritten
  · exact .refused (Action.runOn_bind_of_error hwrites) (exchanges_congr hstore)

/-- An update accounts for the documents that it has counted. -/
theorem accounts_updateEncoded (ds : Datastore σ) (keys : List DocumentKey) (data : EncodedData)
    (b : Batcher (Watched σ)) :
    Accounts exchanges (0 < ·) (updateEncoded ds.watched keys data) b := by
  refine accounts_enter_bind fun b₁ => ?_
  cases keys with
  | nil =>
      refine accounts_enter_bind fun b₂ => .silent rfl fun n hn hpos => ?_
      cases hn
      exact Nat.lt_irrefl 0 hpos
  | cons key rest =>
      refine (accounts_commitChunks ds (by decide) _ b₁).bind fun _ b₂ _ => ?_
      exact .silent rfl fun _ _ hboth => hboth.2 (List.cons_ne_nil _ _)

/-- A deletion accounts for the documents that it has counted. -/
theorem accounts_delete (ds : Datastore σ) (pageSize : Nat) (keys : List DocumentKey)
    (b : Batcher (Watched σ)) :
    Accounts exchanges (0 < ·) (delete ds.watched pageSize keys) b := by
  have hclear : ∀ chunk c, Accounts Client.exchanges (fun _ => True)
      (clearChunk ds.watched pageSize chunk) c := by
    intro chunk c
    have hbelow : Steady False (chunk.mapM (RecursiveDelete.descendants ds.watched pageSize)) :=
      Steady.mapM fun _ _ => RecursiveDelete.steady_descendants False.elim
    refine (Accounts.of_course (hbelow c) fun _ => id).bind fun _ c₁ _ => ?_
    exact Accounts.commit ds _ _ c₁
  refine accounts_enter_bind fun b₁ => ?_
  cases keys with
  | nil =>
      refine accounts_enter_bind fun b₂ => .silent rfl fun n hn hpos => ?_
      cases hn
      exact Nat.lt_irrefl 0 hpos
  | cons key rest =>
      refine accounts_enter_bind fun b₂ => accounts_enter_bind fun b₃ => ?_
      refine (accounts_eachChunk _ 1 hclear _ b₃).bind fun _ b₄ _ => ?_
      refine accounts_enter_bind fun b₅ => .silent rfl fun _ _ hboth => hboth.2 ?_
      rw [chunksOf_of_ne_nil (by decide) (List.cons_ne_nil _ _)]
      exact List.cons_ne_nil _ _

end Batcher

/-- A mutation of its own accounts for what it accounts for on its batcher. -/
theorem Accounts.mutate {kind : α → Prop} {a : Action (Batcher (Watched σ)) α}
    (ha : ∀ b, Accounts Batcher.exchanges kind a b) (client : Client (Watched σ)) :
    Accounts Client.exchanges kind (Client.mutate a) client := (ha _).onPart rfl fun _ => rfl

end DocStore
