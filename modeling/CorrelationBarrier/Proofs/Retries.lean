import CorrelationBarrier.Proofs.Identity

/-!
# The rounds of an entering

A thread that enters a section goes round once for every token that it finds retired. Each of these rounds is paid for by
another thread, which removes the entry of the key while the call is under way.

* `Deed.seeks`, `Deed.declined?`, `round` — the deeds of an entering; `retries` are the tokens that it found retired;
* `removed?`, `removals` — the tokens that others take out of the entry of a key, one for each forgetting that does so;
* `Entering` — how far an entering is: what it did so far, and that its rounds are paid for;
* `Reaches.entering` — this holds as long as the call has not entered its section.

The payment for a round has been made when the thread gets hold of the token, not yet when it fetches it: a token that is
just being retired is still served, but whoever retires it lets go of it only after removing the entry.
-/

namespace CorrelationBarrier

variable {K : Type} {I : Interface} {σ ε α : Type}

/-- Whether a deed is part of entering a section, short of opening it. -/
def Deed.seeks : Deed K I → Bool
  | .sought _ _ | .declined _ | .gaveBack _ => true
  | _ => false

/-- The token that a thread found retired when it got hold of it. -/
def Deed.declined? : Deed K I → Option TokenId
  | .declined i => some i
  | _ => none

/-- The tokens that a thread found retired, in order: one for each time that it goes round. -/
def retries (n : Nat) (es : List (Happening K I ε σ)) : List TokenId := (deedsOf n es).filterMap Deed.declined?

theorem retries_eq_nil {n : Nat} {es : List (Happening K I ε σ)} (h : ∀ e ∈ es, ∀ i, e.deed ≠ .declined i) :
    retries n es = [] := by
  refine List.filterMap_eq_nil_iff.2 fun d hd => ?_
  obtain ⟨e, he, rfl⟩ := List.mem_map.1 hd
  have other := h e (List.mem_of_mem_filter he)
  generalize e.deed = d at other
  cases d with
  | declined i => exact absurd rfl (other i)
  | _ => rfl

/-- The deeds of one round: to fetch a token, to find it retired, and to let go of it. -/
def round (k : K) (i : TokenId) : List (Deed K I) := [.sought k i, .declined i, .gaveBack i]

theorem declined?_rounds (k : K) (is : List TokenId) :
    (is.flatMap (round k) : List (Deed K I)).filterMap Deed.declined? = is := by
  induction is with
  | nil => rfl
  | cons i is ih => exact congrArg (i :: ·) ih

theorem rounds_concat (k : K) (is : List TokenId) (i : TokenId) :
    ((is ++ [i]).flatMap (round k) : List (Deed K I)) = is.flatMap (round k) ++ [.sought k i, .declined i] ++ [.gaveBack i] := by
  simp [round]

variable [DecidableEq K]

/-- The token that `e`, which happens after `hist`, takes out of the entry of `k`. -/
def removed? (k : K) (hist : List (Happening K I ε σ)) (e : Happening K I ε σ) : Option TokenId :=
  match e.deed with
  | .forgot depth true =>
    (staysOf e.thread hist)[depth]?.bind fun s => if s.held.key = k then some s.held.token else none
  | _ => none

/-- The tokens that others than `n` take out of the entry of `k` in `es`, which happens after `hist`. -/
def removals (n : Nat) (k : K) (hist : List (Happening K I ε σ)) : List (Happening K I ε σ) → List TokenId
  | [] => []
  | e :: es => (if e.thread = n then [] else (removed? k hist e).toList) ++ removals n k (hist ++ [e]) es

theorem removals_append (n : Nat) (k : K) (hist es : List (Happening K I ε σ)) (e : Happening K I ε σ) :
    removals n k hist (es ++ [e]) =
      removals n k hist es ++ if e.thread = n then [] else (removed? k (hist ++ es) e).toList := by
  induction es generalizing hist with
  | nil => simp [removals]
  | cons x es ih => simp [removals, ih, List.append_assoc]

/-- A token is removed at the end of a forgetting of the section that holds it. -/
theorem removed?_eq_some_iff {k : K} {hist : List (Happening K I ε σ)} {e : Happening K I ε σ} {i : TokenId} :
    removed? k hist e = some i ↔
      ∃ depth s, e.deed = .forgot depth true ∧ (staysOf e.thread hist)[depth]? = some s ∧ s.held.key = k ∧
        s.held.token = i := by
  obtain ⟨n, env, data, d⟩ := e
  constructor
  · intro h
    unfold removed? at h
    split at h
    · rename_i depth hd
      obtain ⟨s, found, h⟩ := Option.bind_eq_some_iff.1 h
      by_cases hk : s.held.key = k
      · exact ⟨depth, s, hd, found, hk, by simpa [hk] using h⟩
      · simp [hk] at h
    · cases h
  · rintro ⟨depth, s, rfl, found, hk, rfl⟩
    simp [removed?, found, hk]

/-- What is removed is what `Unlinks` speaks of. -/
theorem isSome_removed?_iff {k : K} {hist : List (Happening K I ε σ)} {e : Happening K I ε σ} :
    (removed? k hist e).isSome ↔ Unlinks hist e k := by
  rw [Option.isSome_iff_exists]
  constructor
  · rintro ⟨i, h⟩
    obtain ⟨depth, s, hd, found, hk, -⟩ := removed?_eq_some_iff.1 h
    exact ⟨depth, s, hd, found, hk⟩
  · rintro ⟨depth, s, hd, found, hk⟩
    exact ⟨_, removed?_eq_some_iff.2 ⟨depth, s, hd, found, hk, rfl⟩⟩

theorem removals_eq_nil {n : Nat} {k : K} {hist es : List (Happening K I ε σ)} (h : Unforgotten hist k es) :
    removals n k hist es = [] := by
  induction es using List.reverseRecOn with
  | nil => rfl
  | append_singleton es e ih =>
    obtain ⟨before, last⟩ := unforgotten_append.1 h
    rw [← isSome_removed?_iff, Bool.not_eq_true, Option.isSome_eq_false_iff, Option.isNone_iff_eq_none] at last
    rw [removals_append, ih before, last]
    split <;> rfl

/-! ## how far an entering is -/

/-- A thread has found the tokens of some rounds retired and is at a stage of the next; `deeds` is what it did so far, and
`gone` are the tokens that others have removed meanwhile. A token that it has fetched is the entry, or removed. -/
inductive Entering (table : LockTable K) (k : K) (gone : List TokenId) : List (Deed K I) → Stage → Prop where
  | ready {is : List TokenId} (paid : is.Sublist gone) : Entering table k gone (is.flatMap (round k)) .ready
  | fetched {is : List TokenId} {i} (paid : is.Sublist gone) (entry : table.current k = some i ∨ (is ++ [i]).Sublist gone) :
    Entering table k gone (is.flatMap (round k) ++ [.sought k i]) (.fetched i)
  | rejected {is : List TokenId} {i} (paid : (is ++ [i]).Sublist gone) :
    Entering table k gone (is.flatMap (round k) ++ [.sought k i, .declined i]) (.rejected i)

namespace Entering

variable {table table' : LockTable K} {k : K} {gone gone' : List TokenId} {deeds : List (Deed K I)} {s : Stage}

/-- The rounds so far are paid for. -/
theorem retries_sublist (h : Entering table k gone deeds s) : (deeds.filterMap Deed.declined?).Sublist gone := by
  cases h with
  | ready paid =>
    rw [declined?_rounds]
    exact paid
  | fetched paid _ =>
    rw [List.filterMap_append, declined?_rounds]
    exact (List.append_nil _).symm ▸ paid
  | rejected paid =>
    rw [List.filterMap_append, declined?_rounds]
    exact paid

/-- Others may remove the token that was fetched, if they pay for it. -/
theorem mono (h : Entering table k gone deeds s) (sub : gone.Sublist gone')
    (entry : ∀ i, table.current k = some i → table'.current k = some i ∨ gone' = gone ++ [i]) :
    Entering table' k gone' deeds s := by
  cases h with
  | ready paid => exact .ready (paid.trans sub)
  | @fetched is i paid fetched =>
    refine .fetched (paid.trans sub) ?_
    rcases fetched with fetched | fetched
    · rcases entry i fetched with entry | rfl
      · exact .inl entry
      · exact .inr (paid.append (List.Sublist.refl _))
    · exact .inr (fetched.trans sub)
  | rejected paid => exact .rejected (paid.trans sub)

/-- The thread goes on with its entering. It finds retired what is not the entry any more, for a token that is retired
and still the entry is held by whoever retires it. -/
theorem step {service : Service I ε σ} {env : ε} {data data' : σ} {t' : Thread K I α} {d : Deed K I}
    {next : Program K I α} {hs : List (Held K)} (h : Entering table k gone deeds s)
    (step : Thread.Step service env table data ⟨.enter k next, s, hs⟩ d table' data' t') (seeks : d.seeks)
    (ending : ∀ i, table.current k = some i → (table.token i).retired = true → (table.token i).held = true) :
    ∃ s', t' = ⟨.enter k next, s', hs⟩ ∧ Entering table' k gone (deeds ++ [d]) s' := by
  cases step with
  | sought =>
    cases h with
    | ready paid => exact ⟨_, rfl, .fetched paid (.inl (LockTable.current_acquire ..))⟩
  | @declined _ _ i _ free stale =>
    cases h with
    | @fetched is _ paid entry =>
      have retired : (table.token i).retired = true := by
        simp only [LockTable.rejects, Bool.and_eq_true] at stale
        exact stale.1
      have paid : (is ++ [i]).Sublist gone := by
        rcases entry with entry | entry
        · rw [ending i entry retired] at free
          cases free
        · exact entry
      exact ⟨_, rfl, by simpa using Entering.rejected paid⟩
  | @gaveBack _ _ i =>
    cases h with
    | @rejected is _ paid =>
      refine ⟨_, rfl, ?_⟩
      rw [← rounds_concat]
      exact .ready paid
  | opened => cases seeks

/-- When the thread does something else, it opens the section, with the token that it fetched last. -/
theorem opens {service : Service I ε σ} {env : ε} {data data' : σ} {t' : Thread K I α} {d : Deed K I}
    {next : Program K I α} {hs : List (Held K)} (h : Entering table k gone deeds s)
    (step : Thread.Step service env table data ⟨.enter k next, s, hs⟩ d table' data' t') (other : ¬ d.seeks) :
    ∃ i, d = .opened ⟨k, i⟩ ∧ deeds = (deeds.filterMap Deed.declined?).flatMap (round k) ++ [.sought k i] := by
  cases step with
  | sought | declined | gaveBack => exact absurd rfl other
  | @opened _ _ i _ free fresh =>
    cases h with
    | @fetched is _ paid _ =>
      refine ⟨i, rfl, ?_⟩
      rw [List.filterMap_append, declined?_rounds]
      exact congrArg (List.flatMap (round k) · ++ [.sought k i]) (List.append_nil is).symm

end Entering

namespace Machine

variable {service : Service I ε σ} {m₀ m m' : Machine K I σ α} {hist es : List (Happening K I ε σ)} {k : K} {n : Nat}

/-- One run after the other is a run. -/
theorem Reaches.trans (run : m₀.Reaches service hist m) (rest : m.Reaches service es m') :
    m₀.Reaches service (hist ++ es) m' := by
  induction rest with
  | here =>
    rw [List.append_nil]
    exact run
  | start p _ ih => exact .start p ih
  | step _ thread step ih =>
    rw [← List.append_assoc]
    exact .step ih thread step

/-- A run can be stopped at any point of its history. -/
theorem Reaches.stop {rest : List (Happening K I ε σ)} (run : m₀.Reaches service (hist ++ rest) m) :
    ∃ m₁, m₀.Reaches service hist m₁ := by
  cases rest with
  | nil =>
    rw [List.append_nil] at run
    exact ⟨m, run⟩
  | cons =>
    obtain ⟨m₁, _, _, _, _, before, -⟩ := run.split rfl
    exact ⟨m₁, before⟩

/-- An entry that is retired is held, by the thread that forgets it. -/
theorem Sound.held_of_retired (sound : m.Sound) (i : TokenId) (entry : m.table.current k = some i)
    (retired : (m.table.token i).retired = true) : (m.table.token i).held = true := by
  obtain ⟨n, t, ht, ending⟩ := sound.ending k i entry retired
  have mem : i ∈ t.tokens := Thread.token_mem_tokens (h := ⟨k, i⟩) (Thread.mem_of_ending? ending)
  exact ((sound.fits n t ht).holds i mem).2

section Step

variable {env : ε} {j : Nat} {t t' : Thread K I α} {d : Deed K I} {table : LockTable K} {data : σ} {i : TokenId}

/-- What a step removes from the entry of a key was the entry. -/
theorem Reaches.removed?_eq_some (run : m₀.Reaches service hist m) (h₀ : m₀.threads = []) (ht : m.threads[j]? = some t)
    (step : t.Step service env m.table m.data d table data t') (h : removed? k hist ⟨j, env, m.data, d⟩ = some i) :
    m.table.current k = some i ∧ table.current k = none := by
  have sections : (staysOf j hist).map (·.held) = t.sections := run.sections_of_thread h₀ ht
  obtain ⟨depth, s, rfl, found, rfl, rfl⟩ := removed?_eq_some_iff.1 h
  generalize hd : Deed.forgot depth true = d at step
  cases step with
  | forgot there =>
    obtain ⟨rfl, removed⟩ := Deed.forgot.inj hd
    cases there.symm.trans (section_at sections found)
    have entry := (LockTable.unlink_eq_true_iff ..).1 removed.symm
    exact ⟨entry, by rw [LockTable.current_unlink, if_pos ⟨entry, rfl⟩]⟩
  | _ => cases hd

/-- A step that takes the entry of a key away removes it. -/
theorem Reaches.removed?_of_removes (run : m₀.Reaches service hist m) (h₀ : m₀.threads = [])
    (ht : m.threads[j]? = some t) (step : t.Step service env m.table m.data d table data t')
    (before : m.table.current k = some i) (after : table.current k ≠ some i) :
    removed? k hist ⟨j, env, m.data, d⟩ = some i := by
  obtain ⟨depth, found, rfl, -⟩ := step.removes before after
  rw [← run.sections_of_thread h₀ ht, List.getElem?_map] at found
  obtain ⟨s, there, held⟩ := Option.map_eq_some_iff.1 found
  simp [removed?, there, held]

end Step

/-- Nothing is removed twice, for what is removed never is the entry again. -/
theorem Reaches.removals_nodup (run : m₀.Reaches service hist m) (h₀ : m₀.threads = []) (sound : m₀.Sound)
    (rest : m.Reaches service es m') : (removals n k hist es).Nodup ∧
      ∀ i ∈ removals n k hist es, i < m'.table.tokens.length ∧ m'.table.current k ≠ some i := by
  induction rest with
  | here => simp [removals]
  | start p _ ih => exact ih
  | @step es m₁ j env t d table data t' rest thread step ih =>
    obtain ⟨nodup, out⟩ := ih
    have run₁ := run.trans rest
    have old : ∀ i ∈ removals n k hist es, i < table.tokens.length ∧ table.current k ≠ some i := by
      intro i hi
      obtain ⟨made, gone⟩ := out i hi
      exact ⟨Nat.lt_of_lt_of_le made step.evolves.made, fun entry => gone (step.evolves.current_of_made made entry)⟩
    rw [removals_append]
    split
    · simpa using ⟨nodup, old⟩
    · cases hr : removed? k (hist ++ es) ⟨j, env, m₁.data, d⟩ with
      | none => simpa using ⟨nodup, old⟩
      | some i =>
        obtain ⟨before, after⟩ := run₁.removed?_eq_some h₀ thread step hr
        constructor
        · refine List.nodup_append.2 ⟨nodup, List.nodup_singleton i, ?_⟩
          rintro x hx y hy rfl
          obtain rfl := List.mem_singleton.1 hy
          exact (out x hx).2 before
        · intro x hx
          rcases List.mem_append.1 hx with hx | hx
          · exact old x hx
          · obtain rfl := List.mem_singleton.1 hx
            have made := (run₁.sound sound).made k x before
            refine ⟨Nat.lt_of_lt_of_le made step.evolves.made, ?_⟩
            simp [Machine.after, after]

/-- A thread that has fetched a token of `k` to enter a section, and has done nothing but go on with that, has paid for
its rounds with the tokens that others have removed since. -/
theorem Reaches.entering (run : m₀.Reaches service hist m) (h₀ : m₀.threads = []) (sound : m₀.Sound)
    {next : Program K I α} {i : TokenId} {hs : List (Held K)} (ht : m.threads[n]? = some ⟨.enter k next, .fetched i, hs⟩)
    (entry : m.table.current k = some i) (rest : m.Reaches service es m') (seeks : ∀ d ∈ deedsOf n es, d.seeks) :
    ∃ s, m'.threads[n]? = some ⟨.enter k next, s, hs⟩ ∧
      Entering m'.table k (removals n k hist es) (.sought k i :: deedsOf n es) s := by
  induction rest with
  | here =>
    have none : ([] : List TokenId).Sublist [] := List.Sublist.refl _
    exact ⟨_, ht, .fetched none (.inl entry)⟩
  | start p _ ih =>
    obtain ⟨s, thread, entering⟩ := ih seeks
    exact ⟨s, threads_start.2 (.inl thread), entering⟩
  | @step es m₁ j env t d table data t' rest thread step ih =>
    rw [deedsOf_append] at seeks ⊢
    obtain ⟨s, mine, entering⟩ := ih fun d hd => seeks d (List.mem_append_left _ hd)
    have run₁ := run.trans rest
    rw [removals_append, deedsOf_one] at *
    by_cases hj : j = n
    · subst hj
      rw [thread] at mine
      cases mine
      have seeks : d.seeks := seeks d (by simp)
      obtain ⟨s', rfl, entering'⟩ := entering.step step seeks (run₁.sound sound).held_of_retired
      rw [if_pos rfl, if_pos rfl, List.append_nil]
      exact ⟨s', threads_after_self thread, entering'⟩
    · refine ⟨s, (threads_after_of_ne (Ne.symm hj)).trans mine, ?_⟩
      simp only [hj, if_false, List.append_nil]
      refine entering.mono (List.sublist_append_left ..) fun x before => ?_
      by_cases after : table.current k = some x
      · exact .inl after
      · rw [run₁.removed?_of_removes h₀ thread step before after]
        exact .inr rfl

/-- A tolerant table rejects no token. -/
theorem Reaches.not_declined (run : m₀.Reaches service hist m) (tolerant : m₀.table.policy = .tolerant) :
    ∀ e ∈ hist, ∀ i, e.deed ≠ .declined i := by
  induction run with
  | here => nofun
  | start _ _ ih => exact ih
  | @step hist m j env t d table data t' run thread step ih =>
    intro e he i
    rcases List.mem_append.1 he with he | he
    · exact ih e he i
    · obtain rfl := List.mem_singleton.1 he
      rintro rfl
      cases step with
      | declined _ stale => simp [LockTable.rejects, run.policy, tolerant] at stale

/-- **Retries are paid for by forgets.** Take any run on a fresh table, whatever its threads run. A tolerant table makes
no thread go round. Under either policy take a thread that fetches a token of `k` to enter a section, and what happens
after that while the thread does nothing but go on with it:

* the tokens that it finds retired are, in their order, among those that other threads take out of the entry of `k`
  meanwhile, one by each forgetting that removes the entry, from inside of whatever sections, and none twice; so it goes
  round at most as often as others forget the key;
* when it does something else, it opens the section, with the token that it fetched last, after one round for each token
  that it found retired;
* if nobody forgets the key meanwhile, or the table is tolerant, it opens the section with the token that it fetched
  first. -/
theorem retries_paid_by_forgets (service : Service I ε σ) (policy : TokenPolicy) (data : σ)
    (moves : List (Move K I ε α)) :
    let start : Machine K I σ α := { table := .new policy, data := data }
    let hist := start.history service moves
    (policy = .tolerant → ∀ e ∈ hist, ∀ i, e.deed ≠ .declined i) ∧
    ∀ before e es after k i, hist = before ++ e :: (es ++ after) → e.deed = .sought k i →
      (∀ d ∈ deedsOf e.thread es, d.seeks) →
      let found := retries e.thread es
      let gone := removals e.thread k (before ++ [e]) es
      found.Sublist gone ∧ gone.Nodup ∧ found.length ≤ gone.length ∧
      (∀ x rest, after = x :: rest → x.thread = e.thread → ¬ x.deed.seeks → ∃ j, x.deed = .opened ⟨k, j⟩ ∧
        deedsOf e.thread (e :: es) = found.flatMap (round k) ++ [.sought k j]) ∧
      (policy = .tolerant ∨ Unforgotten (before ++ [e]) k es → found = [] ∧
        ∀ x rest, after = x :: rest → x.thread = e.thread → ¬ x.deed.seeks → x.deed = .opened ⟨k, i⟩) := by
  intro start hist
  have run : start.Reaches service hist (start.run service moves) := reaches_run service moves start
  have sound : start.Sound := sound_new policy data
  have calm (tolerant : policy = .tolerant) : ∀ e ∈ hist, ∀ i, e.deed ≠ .declined i := run.not_declined tolerant
  refine ⟨calm, ?_⟩
  intro before e es after k i hh hd seeks found gone
  obtain ⟨m₁, t, table, data₁, t', run₁, thread, step, later, same⟩ := run.split_at hh
  -- the state in which the thread has fetched its first token
  have entry : table.current k = some i := (step.current_of_acquires (.inr hd)).2
  have began : ∃ next hs, t' = ⟨.enter k next, .fetched i, hs⟩ := by
    rw [hd] at step
    cases step with
    | sought => exact ⟨_, _, rfl⟩
  obtain ⟨next, hs, rfl⟩ := began
  have run₂ : start.Reaches service (before ++ [e]) (m₁.after e.thread table data₁ ⟨.enter k next, .fetched i, hs⟩) := by
    rw [same]
    exact .step run₁ thread step
  have first : deedsOf e.thread (e :: es) = .sought k i :: deedsOf e.thread es := by simp [deedsOf, hd]
  have count : (deedsOf e.thread (e :: es)).filterMap Deed.declined? = found := by rw [first]; rfl
  -- how far the entering is when the stretch ends
  have entering {m₂ : Machine K I σ α} (stretch : (m₁.after e.thread table data₁ ⟨.enter k next, .fetched i, hs⟩).Reaches
      service es m₂) : ∃ s, m₂.threads[e.thread]? = some ⟨.enter k next, s, hs⟩ ∧
      Entering m₂.table k gone (deedsOf e.thread (e :: es)) s := by
    rw [first]
    exact run₂.entering rfl sound (threads_after_self thread) entry stretch seeks
  obtain ⟨m₂, stretch⟩ := later.stop
  obtain ⟨_, -, soFar⟩ := entering stretch
  have paid : found.Sublist gone := count ▸ soFar.retries_sublist
  have opens : ∀ x rest, after = x :: rest → x.thread = e.thread → ¬ x.deed.seeks → ∃ j, x.deed = .opened ⟨k, j⟩ ∧
      deedsOf e.thread (e :: es) = found.flatMap (round k) ++ [.sought k j] := by
    rintro x rest rfl hx other
    obtain ⟨m₃, _, _, _, _, stretch, thread₃, step₃, -⟩ := later.split rfl
    obtain ⟨s, mine, soFar⟩ := entering stretch
    rw [hx, mine] at thread₃
    cases thread₃
    rw [← count]
    exact soFar.opens step₃ other
  refine ⟨paid, (run₂.removals_nodup rfl sound stretch).1, paid.length_le, opens, fun quiet => ?_⟩
  have none : found = [] := by
    rcases quiet with tolerant | unforgotten
    · exact retries_eq_nil fun x hx => calm tolerant x (by simp [hh, hx])
    · exact List.sublist_nil.1 (removals_eq_nil (n := e.thread) unforgotten ▸ paid)
  refine ⟨none, fun x rest ha hx other => ?_⟩
  obtain ⟨j, opened, deeds⟩ := opens x rest ha hx other
  rw [none, first] at deeds
  obtain ⟨same, -⟩ := List.cons.inj deeds
  cases same
  exact opened

/-- Two threads enter a section of the key 0. The second fetches its token while the first holds it; the first opens a
section of the key 1 inside of its own and forgets the key 0 from there, and so the second goes round once. -/
theorem one_retry_after_one_forget :
    let silent : Service ⟨Unit, fun _ => Unit⟩ Unit Unit := fun _ _ _ => ((), ())
    let moves : List (Move Nat ⟨Unit, fun _ => Unit⟩ Unit Bool) :=
      [.start (.within 0 (.within 1 (.forget 1 .done))), .start (.within 0 .current)] ++
        [0, 0, 1, 0, 0, 0, 0, 0, 0, 1, 1, 1, 1].map fun n => .advance n ()
    let before := [⟨0, (), (), .sought 0 0⟩, ⟨0, (), (), .opened ⟨0, 0⟩⟩]
    let es := [⟨0, (), (), .sought 1 1⟩, ⟨0, (), (), .opened ⟨1, 1⟩⟩, ⟨0, (), (), .retired 1⟩,
      ⟨0, (), (), .forgot 1 true⟩, ⟨0, (), (), .closed⟩, ⟨0, (), (), .closed⟩, ⟨1, (), (), .declined 0⟩,
      ⟨1, (), (), .gaveBack 0⟩, ⟨1, (), (), .sought 0 2⟩]
    Machine.history silent moves { table := .new .validated, data := () } =
      before ++ ⟨1, (), (), .sought 0 0⟩ :: (es ++ [⟨1, (), (), .opened ⟨0, 2⟩⟩]) ∧
    retries 1 es = [0] ∧ removals 1 0 (before ++ [⟨1, (), (), .sought 0 0⟩]) es = [0] ∧
      (retries 1 es).length ≤ (removals 1 0 (before ++ [⟨1, (), (), .sought 0 0⟩]) es).length := by
  intro silent moves before es
  have happened : Machine.history silent moves { table := .new .validated, data := () } =
      before ++ ⟨1, (), (), .sought 0 0⟩ :: (es ++ [⟨1, (), (), .opened ⟨0, 2⟩⟩]) := by cbv
  obtain ⟨-, paid⟩ := retries_paid_by_forgets silent .validated () moves
  exact ⟨happened, rfl, rfl, (paid _ _ _ _ 0 0 happened rfl (by decide)).2.2.1⟩

end Machine

end CorrelationBarrier
