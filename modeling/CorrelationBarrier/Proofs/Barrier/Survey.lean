import CorrelationBarrier.Proofs.Barrier.Course
import CorrelationBarrier.Proofs.Barrier.Solo
import Mathlib.Data.List.Permutation

/-!
# What a pull has seen that comes back with nothing

A pull looks at the group of every key that it found in the table, unless it hands out a message or fails on the way. If it
comes back with nothing, then every one of these keys has shown it, at some point, that there was nothing to hand out.

* `Group.offers`, `GroupStore.offers` — whether a key has a group that may release and has an unmarked message;
* `dueAfter`, `Barrier.due` — the keys that a pull has not yet seen with nothing to offer, as its deeds show them;
* `Act.Owes` — a program answers that there is nothing only when no key is due any more, whatever the replies;
  `Act.owes_ofOperation`, and `Course.owes` for the threads of a run;
* `Barrier.surveyed_play` — a key that is not due any more offered nothing in some state since the look at the table.
-/

namespace CorrelationBarrier

variable {K M : Type} [DecidableEq K]

/-- Whether a group may release and has an unmarked message. -/
def Group.offers (may : Group K M → Bool) (g : Group K M) : Bool := may g && !g.unmarked.isEmpty

/-- Whether a key has a group that may release and has an unmarked message. -/
def GroupStore.offers (may : Group K M → Bool) (s : GroupStore K M) (k : K) : Bool :=
  (s.group k).any (Group.offers may)

theorem GroupStore.offers_eq_false_iff {may : Group K M → Bool} {s : GroupStore K M} {k : K} :
    s.offers may k = false ↔ s.group k = none ∨ ∃ g, s.group k = some g ∧ (may g = false ∨ g.unmarked = []) := by
  unfold offers
  cases s.group k with
  | none => simp
  | some g => cases h : may g <;> simp [Group.offers, h]

/-! ## what a program still has to see -/

/-- The keys that are due without `k`. -/
def strike (k : K) (due : Option (List K)) : Option (List K) := due.map fun ks => ks.filter fun j => !decide (j = k)

/-- The keys that a pull has still to see with nothing to offer, after one more deed; `none` before it looks at the
table. -/
def dueAfter (may : Group K M → Bool) (due : Option (List K)) (d : Deed K (Request.interface K M)) : Option (List K) :=
  match d with
  | .looked table => some table.keys
  | .called (.group k) (.ok o) => if o.any (Group.offers may) then due else strike k due
  | _ => due

namespace Act

variable {α β : Type}

/-- Whatever the replies, the answer of a program satisfies `Q` together with the keys that are then still due. -/
def Owes (may : Group K M → Bool) (Q : Option (List K) → α → Prop) : Act K M α → Option (List K) → Prop
  | .done a, due => Q due a
  | .acquire k next, due => ∀ i, Owes may Q (next i) (dueAfter may due (.fetched k i))
  | .look next, due => ∀ t, Owes may Q (next t) (dueAfter may due (.looked t))
  | .enter _ next, due => Owes may Q next due
  | .leave next, due => Owes may Q next (dueAfter may due .closed)
  | .forget depth next, due => ∀ b, Owes may Q (next b) (dueAfter may due (.forgot depth b))
  | .isCurrent depth next, due => ∀ b, Owes may Q (next b) (dueAfter may due (.asked depth b))
  | .call c next, due => ∀ r, Owes may Q (next r) (dueAfter may due (.called c r))

/-- A pull answers that there is nothing only when it has looked at the table and no key is due. -/
def Clear (due : Option (List K)) (a : Answer K M) : Prop := a = .pulled (.ok none) → due = some []

/-- What a visit to `k` leaves due, if the pull goes on after it. -/
def Seen (k : K) (due due' : Option (List K)) : Outcome (BarrierError K) (Visit M) → Prop
  | .error _ | .ok (.released _) => True
  | .ok _ => due' = strike k due

variable {may : Group K M → Bool} {rules : Rules K M} {policy : TokenPolicy}

theorem Owes.bind {Q : Option (List K) → α → Prop} {R : Option (List K) → β → Prop} {p : Act K M α} {f : α → Act K M β}
    {due : Option (List K)} (hp : p.Owes may Q due) (hf : ∀ due a, Q due a → (f a).Owes may R due) :
    Owes may R (p.bind f) due := by
  induction p generalizing due with
  | done a => exact hf due a hp
  | acquire k _ ih => exact fun i => ih i (hp i)
  | look _ ih => exact fun t => ih t (hp t)
  | enter k _ ih => exact ih hp
  | leave _ ih => exact ih hp
  | forget _ _ ih => exact fun b => ih b (hp b)
  | isCurrent _ _ ih => exact fun b => ih b (hp b)
  | call c _ ih => exact fun r => ih r (hp r)

theorem owes_trivial (p : Act K M α) (due : Option (List K)) : p.Owes may (fun _ _ => True) due := by
  induction p generalizing due with
  | done a => exact trivial
  | acquire k _ ih => exact fun i => ih i _
  | look _ ih => exact fun t => ih t _
  | enter k _ ih => exact ih _
  | leave _ ih => exact ih _
  | forget _ _ ih => exact fun b => ih b _
  | isCurrent _ _ ih => exact fun b => ih b _
  | call c _ ih => exact fun r => ih r _

/-- A visit that hands out nothing has seen that its key offers nothing. -/
theorem owes_visit (judges : rules.release = .when may) (k : K) (due : Option (List K)) :
    (visit rules policy k).Owes may (Seen k due) due := by
  intro r
  match r with
  | .error f => exact trivial
  | .ok none =>
    intro _
    cases policy with
    | tolerant => exact rfl
    | validated => exact fun _ => rfl
  | .ok (some g) =>
    intro now
    show Owes may (Seen k due) _ (dueAfter may due (.called (.group k) (.ok (some g))))
    have judged : rules.release g now = .ok (may g) := by
      rw [judges]
      rfl
    dsimp only [Program.bind]
    rw [judged]
    cases hmay : may g with
    | false =>
      have seen : dueAfter may due (.called (.group k) (.ok (some g))) = strike k due := by
        simp [dueAfter, Group.offers, hmay]
      exact seen
    | true =>
      cases hg : g.unmarked with
      | nil =>
        have seen : dueAfter may due (.called (.group k) (.ok (some g))) = strike k due := by
          simp [dueAfter, Group.offers, hmay, hg]
        rw [seen]
        intro r
        match r with
        | .error f => exact trivial
        | .ok () => exact fun b _ => rfl
      | cons m rest =>
        -- a message is handed out, or the pull fails
        dsimp only [handOut]
        cases rules.mode with
        | remove | mark =>
          intro r
          match r with
          | .error f => exact trivial
          | .ok () => exact fun _ => trivial

/-- A walk answers that there is nothing only when it has seen all its keys with nothing to offer. -/
theorem owes_walk (judges : rules.release = .when may) {ks due : List K} (within : ∀ k ∈ due, k ∈ ks) :
    (walk rules policy ks).Owes may (fun due o => o = .ok none → due = some []) (some due) := by
  induction ks generalizing due with
  | nil =>
    intro _
    rw [List.eq_nil_iff_forall_not_mem.2 fun k hk => List.not_mem_nil (within k hk)]
  | cons k rest ih =>
    have rest_due : ∀ j ∈ due.filter fun j => !decide (j = k), j ∈ rest := by
      intro j hj
      obtain ⟨hj, other⟩ := List.mem_filter.1 hj
      exact (List.mem_cons.1 (within j hj)).resolve_left (by simpa using other)
    refine Owes.bind (Q := Seen k (some due)) ?_ ?_
    · exact Owes.bind (owes_visit judges k (some due)) fun _ _ h => h
    · rintro due' (f | v) seen
      · exact nofun
      · cases v with
        | released m => exact fun _ => nofun
        | held =>
          cases seen
          exact ih rest_due
        | drained =>
          cases seen
          exact fun _ => ih rest_due
        | stale =>
          cases seen
          exact fun _ => ih rest_due

/-- An operation answers that there is nothing only when no key is due. -/
theorem owes_ofOperation (judges : rules.release = .when may) (op : Operation K M) (due : Option (List K)) :
    (ofOperation rules policy op).Owes may Clear due := by
  cases op with
  | accept m => exact (owes_trivial _ due).bind fun _ _ _ => nofun
  | pull order =>
    refine Owes.bind (Q := fun due o => o = .ok none → due = some []) (fun t => ?_) fun due o h => ?_
    · exact owes_walk judges fun k hk => order.mem_arrange.2 hk
    · intro e
      cases e
      exact h rfl

end Act

/-! ## what the threads of a run still have to see -/

section Run

variable [BEq M] {may : Group K M → Bool}

/-- A thread goes on owing what is due. -/
theorem Thread.Step.owes {env : Surroundings} {table table' : LockTable K} {data data' : Shared K M}
    {t t' : Thread K (Request.interface K M) (Answer K M)} {d : Deed K (Request.interface K M)} {due : Option (List K)}
    (step : t.Step Shared.service env table data d table' data' t') (owes : Act.Owes may Act.Clear t.program due) :
    Act.Owes may Act.Clear t'.program (dueAfter may due d) := by
  cases step with
  | sought | declined | gaveBack | retired | opened | closed | closedNothing => exact owes
  | fetched | looked | forgot | forgotNothing | asked | askedNothing | called => exact owes _

omit [BEq M] in
/-- A deed leaves what is due as it is, or it is the look at the table, or it shows that a key offers nothing. -/
theorem dueAfter_cases (may : Group K M → Bool) (due : Option (List K)) (d : Deed K (Request.interface K M)) :
    dueAfter may due d = due ∨ (∃ table, d = .looked table ∧ dueAfter may due d = some table.keys) ∨
      ∃ k o, d = .called (.group k) (.ok o) ∧ o.any (Group.offers may) = false ∧
        dueAfter may due d = strike k due := by
  unfold dueAfter
  split
  · exact .inr (.inl ⟨_, rfl, rfl⟩)
  · rename_i k o
    split
    · exact .inl rfl
    · exact .inr (.inr ⟨k, o, rfl, Bool.eq_false_iff.2 ‹_›, rfl⟩)
  · exact .inl rfl

namespace Barrier

/-- The keys that a thread has still to see with nothing to offer, as the chronicle shows them. -/
def due (may : Group K M → Bool) (n : Nat) (hist : List (Occurrence K M)) : Option (List K) :=
  (deedsOf n hist).foldl (dueAfter may) none

/-- Whether a thread has begun and has not answered yet. -/
def underway (n : Nat) (m : Threads K M) : Bool := m.threadIs n fun t => t.answer?.isNone

omit [BEq M] in
theorem due_append (n : Nat) (hist : List (Occurrence K M)) (e : Occurrence K M) :
    due may n (hist ++ [e]) = if e.thread = n then dueAfter may (due may n hist) e.deed else due may n hist := by
  rw [due, deedsOf_append, deedsOf_one]
  split
  · rw [List.foldl_append]
    rfl
  · rw [List.append_nil]
    rfl

/-- Every thread owes what is due. -/
theorem Course.owes {b : Barrier K M} {ops : List (Operation K M)} {hist : List (Occurrence K M)} {m : Threads K M}
    (course : b.Course ops hist m) (judges : b.rules.release = .when may) {n : Nat}
    {t : Thread K (Request.interface K M) (Answer K M)} (ht : m.threads[n]? = some t) :
    Act.Owes may Act.Clear t.program (due may n hist) := by
  induction course generalizing t with
  | here => cases ht
  | start op _ ih =>
    rcases Machine.threads_start.1 ht with ht | ⟨-, rfl⟩
    · exact ih ht
    · exact Act.owes_ofOperation judges op _
  | @step ops hist m i env t₀ d table data t' _ thread _ _ _ step ih =>
    rw [due_append]
    rcases (Machine.threads_after thread).1 ht with ⟨rfl, rfl⟩ | ⟨hne, ht⟩
    · rw [if_pos rfl]
      exact step.owes (ih thread)
    · rw [if_neg (Ne.symm hne)]
      exact ih ht

theorem Course.clear_of_answer {b : Barrier K M} {ops : List (Operation K M)} {hist : List (Occurrence K M)}
    {m : Threads K M} (course : b.Course ops hist m) (judges : b.rules.release = .when may) {n : Nat} {a : Answer K M}
    (answered : m.answer? n = some a) : Act.Clear (due may n hist) a := by
  obtain ⟨t, ht, answered⟩ := Option.bind_eq_some_iff.1 answered
  have owes := course.owes judges ht
  obtain ⟨p, stage, hs⟩ := t
  cases p with
  | done a' =>
    cases answered
    exact owes
  | _ => cases answered

/-- In `turns`, the thread `n` has looked at the table, and since then every key of it that is not among `ks` had nothing to
offer in some state, while the thread was underway. -/
def Surveyed (b : Barrier K M) (may : Group K M → Bool) (n : Nat) (turns : List (Turn K M)) (ks : List K) : Prop :=
  ∃ before env after, turns = before ++ .advance n env :: after ∧
    b.chronicle (before ++ [.advance n env]) =
      b.chronicle before ++ [⟨n, env, (b.play before).data, .looked (b.play before).table⟩] ∧
    underway n (b.play before) ∧
    ∀ k ∈ (b.play before).table.keys, k ∉ ks → ∃ mid, mid <+: after ∧
      underway n (b.play (before ++ .advance n env :: mid)) ∧
      (b.play (before ++ .advance n env :: mid)).data.store.offers may k = false

/-- What has been seen is seen also after one more turn, and then one more key may have been seen. -/
theorem Surveyed.concat {b : Barrier K M} {n : Nat} {turns : List (Turn K M)} {ks ks' : List K}
    (surveyed : b.Surveyed may n turns ks) (turn : Turn K M)
    (seen : ∀ k ∈ ks, k ∉ ks' → underway n (b.play turns) ∧ (b.play turns).data.store.offers may k = false) :
    b.Surveyed may n (turns ++ [turn]) ks' := by
  obtain ⟨before, env, after, rfl, looked, began, surveyed⟩ := surveyed
  refine ⟨before, env, after ++ [turn], by simp, looked, began, fun k hk gone => ?_⟩
  by_cases hks : k ∈ ks
  · exact ⟨after, List.prefix_append .., seen k hks gone⟩
  · obtain ⟨mid, hmid, instant⟩ := surveyed k hk hks
    exact ⟨mid, hmid.trans (List.prefix_append ..), instant⟩

/-- A key that is not due any more has been seen with nothing to offer. -/
theorem surveyed_play (b : Barrier K M) (n : Nat) (turns : List (Turn K M)) :
    ∀ ks, due may n (b.chronicle turns) = some ks → b.Surveyed may n turns ks := by
  induction turns using List.reverseRecOn with
  | nil => nofun
  | append_singleton turns turn ih =>
    intro ks hks
    rw [b.chronicle_concat] at hks
    rcases (b.play turns).move_cases Shared.service (b.moveOf turn) with
      ⟨p, -, hh, -⟩ | ⟨i, env, t, d, table, data, t', hmove, ht, step, hh, -⟩ | ⟨hh, -⟩
    · rw [hh, Option.toList_none, List.append_nil] at hks
      exact (ih ks hks).concat turn fun k hk gone => absurd hk gone
    · rw [hh, Option.toList_some, due_append] at hks
      by_cases hi : i = n
      · subst hi
        rw [if_pos rfl] at hks
        have began : underway i (b.play turns) := by
          simp [underway, Machine.threadIs, ht, step.running]
        rcases dueAfter_cases may (due may i (b.chronicle turns)) d with
          same | ⟨table, rfl, now⟩ | ⟨k, o, rfl, nothing, fewer⟩
        · rw [same] at hks
          exact (ih ks hks).concat turn fun k hk gone => absurd hk gone
        · -- the look at the table
          rw [now] at hks
          cases hks
          have here : table = (b.play turns).table := by
            cases step
            rfl
          subst here
          have hturn : turn = .advance i env := by
            cases turn <;> cases hmove
            rfl
          subst hturn
          refine ⟨turns, env, [], rfl, ?_, began, fun k hk gone => absurd hk gone⟩
          rw [b.chronicle_concat]
          exact congrArg (b.chronicle turns ++ Option.toList ·) hh
        · rw [fewer] at hks
          obtain ⟨ks₀, hks₀, rfl⟩ := Option.map_eq_some_iff.1 hks
          refine (ih ks₀ hks₀).concat turn fun j hj gone => ?_
          have hjk : j = k := by
            by_contra other
            exact gone (List.mem_filter.2 ⟨hj, by simpa using other⟩)
          have shown := (Shared.perform_group_ok (step.reply_eq rfl).symm).2
          refine ⟨began, ?_⟩
          rw [hjk, GroupStore.offers, shown]
          exact nothing
      · rw [if_neg hi] at hks
        exact (ih ks hks).concat turn fun k hk gone => absurd hk gone
    · rw [hh, Option.toList_none, List.append_nil] at hks
      exact (ih ks hks).concat turn fun k hk gone => absurd hk gone

/-- **No missed release.** In every run, from every state of the table and the store, under either policy and mode, for a
release rule that goes by the group alone and does not fail: if the pull of a thread comes back with nothing, then at some
point it has taken its look at the table, and for every key that was in the table at that moment there was a state later
on, and before the pull had answered, in which the key had no group, or one that could not release, or one without unmarked
messages. So there is no key that was in the table and had something to hand out throughout the pull. -/
theorem no_missed_release (correlate : Correlation K M) (may : Group K M → Bool) (mode : ReleaseMode)
    (table : LockTable K) (shared : Shared K M) (turns : List (Turn K M)) (n : Nat)
    (nothing : ((⟨⟨correlate, .when may, mode⟩, table, shared⟩ : Barrier K M).play turns).answer? n =
      some (.pulled (.ok none))) :
    let b : Barrier K M := ⟨⟨correlate, .when may, mode⟩, table, shared⟩
    (∃ before env after, turns = before ++ .advance n env :: after ∧
      b.chronicle (before ++ [.advance n env]) =
        b.chronicle before ++ [⟨n, env, (b.play before).data, .looked (b.play before).table⟩] ∧
      underway n (b.play before) ∧
      ∀ k ∈ (b.play before).table.keys, ∃ mid, mid <+: after ∧
        let m := b.play (before ++ .advance n env :: mid)
        underway n m ∧
          (m.data.store.group k = none ∨ ∃ g, m.data.store.group k = some g ∧ (may g = false ∨ g.unmarked = []))) ∧
    ∀ k, ∃ past rest, turns = past ++ rest ∧
      underway n (b.play past) ∧ ¬ (k ∈ (b.play past).table.keys ∧ (b.play past).data.store.offers may k = true) := by
  intro b
  have course : b.Course (operations turns) (b.chronicle turns) (b.play turns) := b.course_play turns
  obtain ⟨before, env, after, rfl, looked, began, surveyed⟩ :=
    b.surveyed_play n turns [] (course.clear_of_answer rfl nothing rfl)
  refine ⟨⟨before, env, after, rfl, looked, began, fun k hk => ?_⟩, fun k => ?_⟩
  · obtain ⟨mid, hmid, still, bare⟩ := surveyed k hk List.not_mem_nil
    exact ⟨mid, hmid, still, GroupStore.offers_eq_false_iff.1 bare⟩
  · by_cases hk : k ∈ (b.play before).table.keys
    · obtain ⟨mid, ⟨rest, rfl⟩, still, bare⟩ := surveyed k hk List.not_mem_nil
      refine ⟨before ++ .advance n env :: mid, rest, by simp, still, fun tracked => ?_⟩
      rw [bare] at tracked
      cases tracked.2
    · exact ⟨before, _, rfl, began, fun tracked => hk tracked.1⟩

/-- A pull visits a group of one message, which may not release, and then that of another key. Between the two visits a
second message comes in, so that the first group could release when the pull comes back with nothing. -/
theorem no_missed_release_of_late_message :
    let may : Group Nat Nat → Bool := fun g => 2 ≤ g.size
    let b : Barrier Nat Nat := ⟨⟨fun m => .ok (m % 2), .when may, .mark⟩, .new .validated, { store := .empty 0 }⟩
    let turns : List (Turn Nat Nat) := [[.start (.accept 7), .start (.accept 8)], List.replicate 6 (.advance 0 {}),
      List.replicate 6 (.advance 1 {}), [.start (.pull .asListed)], List.replicate 6 (.advance 2 {}),
      [.start (.accept 9)], List.replicate 6 (.advance 3 {}), List.replicate 5 (.advance 2 {})].flatten
    (b.play turns).answer? 2 = some (.pulled (.ok none)) ∧ (b.play turns).data.store.offers may 1 = true ∧
      ∃ past rest, turns = past ++ rest ∧ underway 2 (b.play past) ∧
        ¬ (1 ∈ (b.play past).table.keys ∧ (b.play past).data.store.offers may 1 = true) := by
  intro may b turns
  have nothing : (b.play turns).answer? 2 = some (.pulled (.ok none)) := by cbv
  exact ⟨nothing, by decide +kernel, (no_missed_release _ may .mark _ _ turns 2 nothing).2 1⟩

end Barrier

end Run

end CorrelationBarrier
