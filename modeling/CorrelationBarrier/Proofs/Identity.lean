import CorrelationBarrier.Proofs.Exclusion

/-!
# The identity of tokens

Which token is the entry of which key, as the history of a run tells it, under either policy.

* `Deed.Acquires` — a deed that hands out the token of a key;
* `Unlinks` — the end of a forgetting that has removed the entry of a key; `Unforgotten` — there is none in a stretch of
  the history;
* `Given` — a key was acquired, and its entry has not been removed since; `Reaches.current_iff` shows that these are the
  entries of the table;
* `Thread.Step.removes` — what it takes to remove an entry;
* `Reaches.entry_of_idle` — while a thread is in the midst of something, nobody touches the entry of its section, so that
  a forgetting ends with what it began with.
-/

namespace CorrelationBarrier

variable {K : Type} {I : Interface} {σ ε α : Type}

/-- `d` hands out the token `i` of the key `k`. -/
def Deed.Acquires (k : K) (i : TokenId) (d : Deed K I) : Prop := d = .fetched k i ∨ d = .sought k i

/-- `e`, which happens after `hist`, ends a forgetting of `k` that has removed the entry of `k`. -/
def Unlinks (hist : List (Happening K I ε σ)) (e : Happening K I ε σ) (k : K) : Prop :=
  ∃ depth s, e.deed = .forgot depth true ∧ (staysOf e.thread hist)[depth]? = some s ∧ s.held.key = k

/-- In `es`, which happens after `hist`, no forgetting removes the entry of `k`. -/
def Unforgotten (hist : List (Happening K I ε σ)) (k : K) (es : List (Happening K I ε σ)) : Prop :=
  ∀ pre e post, es = pre ++ e :: post → ¬ Unlinks (hist ++ pre) e k

/-- In `hist` the token `i` of `k` was handed out, and no forgetting has removed the entry of `k` since. -/
def Given (hist : List (Happening K I ε σ)) (k : K) (i : TokenId) : Prop :=
  ∃ pre e post, hist = pre ++ e :: post ∧ e.deed.Acquires k i ∧ Unforgotten (pre ++ [e]) k post

/-- Where a list with one more element at its end can be cut. -/
theorem concat_eq_cut {β : Type} {xs pre post : List β} {x y : β} (h : xs ++ [y] = pre ++ x :: post) :
    post = [] ∧ xs = pre ∧ y = x ∨ ∃ post', post = post' ++ [y] ∧ xs = pre ++ x :: post' := by
  rcases List.eq_nil_or_concat post with rfl | ⟨post', z, rfl⟩
  · obtain ⟨rfl, hy⟩ := List.append_inj' h rfl
    cases hy
    exact .inl ⟨rfl, rfl, rfl⟩
  · have h : xs ++ [y] = (pre ++ x :: post') ++ [z] := by simpa using h
    obtain ⟨rfl, hy⟩ := List.append_inj' h rfl
    cases hy
    exact .inr ⟨post', List.concat_eq_append .., rfl⟩

theorem unforgotten_append {hist es : List (Happening K I ε σ)} {k : K} {e : Happening K I ε σ} :
    Unforgotten hist k (es ++ [e]) ↔ Unforgotten hist k es ∧ ¬ Unlinks (hist ++ es) e k := by
  constructor
  · refine fun h => ⟨fun pre x post hes => h pre x (post ++ [e]) ?_, h es e [] rfl⟩
    rw [hes, List.append_assoc, List.cons_append]
  · rintro ⟨before, last⟩ pre x post hes
    rcases concat_eq_cut hes with ⟨-, rfl, rfl⟩ | ⟨post, -, rfl⟩
    · exact last
    · exact before pre x post rfl

theorem not_given_nil {k : K} {i : TokenId} : ¬ Given ([] : List (Happening K I ε σ)) k i := by
  rintro ⟨pre, e, post, h, -⟩
  simp at h

theorem given_append {hist : List (Happening K I ε σ)} {k : K} {i : TokenId} {e : Happening K I ε σ} :
    Given (hist ++ [e]) k i ↔ e.deed.Acquires k i ∨ Given hist k i ∧ ¬ Unlinks hist e k := by
  constructor
  · rintro ⟨pre, x, post, hh, acquires, since⟩
    rcases concat_eq_cut hh with ⟨-, -, rfl⟩ | ⟨post, rfl, rfl⟩
    · exact .inl acquires
    · rw [unforgotten_append] at since
      refine .inr ⟨⟨pre, x, post, rfl, acquires, since.1⟩, ?_⟩
      simpa using since.2
  · rintro (acquires | ⟨⟨pre, x, post, rfl, acquires, since⟩, last⟩)
    · exact ⟨hist, e, [], rfl, acquires, fun pre x post h => by simp at h⟩
    · refine ⟨pre, x, post ++ [e], by simp, acquires, unforgotten_append.2 ⟨since, ?_⟩⟩
      simpa using last

/-- A deed of a thread has its place in the history. -/
theorem deedsOf_split {n : Nat} {hist : List (Happening K I ε σ)} {pre post : List (Deed K I)} {d : Deed K I}
    (h : deedsOf n hist = pre ++ d :: post) :
    ∃ before e after, hist = before ++ e :: after ∧ deedsOf n before = pre ∧ e.thread = n ∧ e.deed = d := by
  obtain ⟨xs, ys, hf, rfl, hys⟩ := List.map_eq_append_iff.1 h
  obtain ⟨e, zs, rfl, rfl, rfl⟩ := List.map_eq_cons_iff.1 hys
  obtain ⟨l, r, rfl, rfl, hr⟩ := List.filter_eq_append_iff.1 hf
  obtain ⟨gap, rest, rfl, others, he, rfl⟩ := List.filter_eq_cons_iff.1 hr
  refine ⟨l ++ gap, e, rest, by simp, ?_, of_decide_eq_true he, rfl⟩
  rw [deedsOf_append, deedsOf, deedsOf, List.filter_eq_nil_iff.2 others, List.map_nil, List.append_nil]

variable [DecidableEq K]

theorem LockTable.Evolves.trans {t t' t'' : LockTable K} (h : t.Evolves t') (h' : t'.Evolves t'') : t.Evolves t'' where
  policy := h'.policy.trans h.policy
  made := Nat.le_trans h.made h'.made
  retired i hi := h'.retired i (h.retired i hi)
  entries k i hk := by
    rcases h'.entries k i hk with hk | hk
    · exact h.entries k i hk
    · exact .inr (Nat.le_trans h.made hk)

/-- A token that is made and not the entry of a key does not become its entry. -/
theorem LockTable.Evolves.current_of_made {t t' : LockTable K} (h : t.Evolves t') {k : K} {i : TokenId}
    (made : i < t.tokens.length) (hk : t'.current k = some i) : t.current k = some i :=
  (h.entries k i hk).resolve_right (Nat.not_le.2 made)

omit [DecidableEq K] in
theorem LockTable.made_of_retired {t : LockTable K} {i : TokenId} (h : (t.token i).retired = true) :
    i < t.tokens.length := by
  by_contra hi
  rw [token_of_unmade (Nat.le_of_not_lt hi)] at h
  cases h

/-! ## what one step does to the entries -/

namespace Thread

variable {service : Service I ε σ} {env : ε} {table table' : LockTable K} {data data' : σ} {t t' : Thread K I α}
  {d : Deed K I} {k : K} {i : TokenId}

/-- What is handed out is the entry. -/
theorem Step.current_of_acquires (step : t.Step service env table data d table' data' t') (h : d.Acquires k i) :
    (table.acquire k).1 = i ∧ table'.current k = some i := by
  cases step with
  | fetched | sought =>
    rcases h with h | h <;> cases h
    exact ⟨rfl, LockTable.current_acquire ..⟩
  | _ => rcases h with h | h <;> cases h

/-- A token is made when it is handed out for the first time. -/
theorem Step.made_or_acquires (step : t.Step service env table data d table' data' t') (h : i < table'.tokens.length) :
    i < table.tokens.length ∨ ∃ k, d.Acquires k i := by
  have acquired (k : K) (h : i < (table.acquire k).2.tokens.length) :
      i < table.tokens.length ∨ i = (table.acquire k).1 := by
    rcases LockTable.current_acquire_cases (LockTable.current_acquire table k) with hc | ⟨-, hi, hl⟩
    · rw [LockTable.acquire, hc] at h
      exact .inl h
    · rw [hl] at h
      rw [hi]
      exact Nat.lt_succ_iff_lt_or_eq.1 h
  cases step with
  | @fetched k =>
    rcases acquired k h with h | rfl
    · exact .inl h
    · exact .inr ⟨k, .inl rfl⟩
  | @sought k =>
    rcases acquired k h with h | rfl
    · exact .inl h
    · exact .inr ⟨k, .inr rfl⟩
  | declined | opened | gaveBack | closed | retired => exact .inl (by simpa using h)
  | forgot =>
    rw [LockTable.length_unlink] at h
    exact .inl h
  | _ => exact .inl h

/-- An entry is removed at the end of a forgetting, by the section that holds its token. -/
theorem Step.removes (step : t.Step service env table data d table' data' t') (before : table.current k = some i)
    (after : table'.current k ≠ some i) :
    ∃ depth, t.sections[depth]? = some ⟨k, i⟩ ∧ d = .forgot depth true ∧ table'.current k = none := by
  cases step with
  | fetched | sought => exact absurd (LockTable.current_acquire_of_some before) after
  | @forgot depth next h hs found =>
    rw [LockTable.current_unlink] at after ⊢
    split at after
    · rename_i hc
      obtain ⟨hc, rfl⟩ := hc
      have hi : h.token = i := Option.some.inj (hc.symm.trans before)
      subst hi
      refine ⟨depth, found, congrArg (Deed.forgot depth) ((LockTable.unlink_eq_true_iff ..).2 hc), ?_⟩
      rw [if_pos ⟨hc, rfl⟩]
    · exact absurd before after
  | _ => exact absurd before after

/-- The entry of a key after a step: what the step has handed out, or else the entry before, unless the step ends a
forgetting that removes it. -/
theorem Step.current_iff (step : t.Step service env table data d table' data' t') :
    table'.current k = some i ↔
      d.Acquires k i ∨ table.current k = some i ∧
        ¬ ∃ depth h, d = .forgot depth true ∧ t.sections[depth]? = some h ∧ h.key = k := by
  have kept (other : ∀ depth, d ≠ .forgot depth true) :
      ¬ ∃ depth h, d = .forgot depth true ∧ t.sections[depth]? = some h ∧ h.key = k := by
    rintro ⟨depth, h, hd, -⟩
    exact other depth hd
  constructor
  · intro h
    by_cases hd : d.Acquires k i
    · exact .inl hd
    · cases step with
      | @fetched k' =>
        rcases LockTable.current_acquire_cases h with h' | ⟨rfl, -, -⟩
        · exact .inr ⟨h', kept nofun⟩
        · rw [LockTable.current_acquire] at h
          exact absurd (.inl (congrArg _ (Option.some.inj h))) hd
      | @sought k' =>
        rcases LockTable.current_acquire_cases h with h' | ⟨rfl, -, -⟩
        · exact .inr ⟨h', kept nofun⟩
        · rw [LockTable.current_acquire] at h
          exact absurd (.inr (congrArg _ (Option.some.inj h))) hd
      | @forgot depth next g hs found =>
        refine .inr ⟨LockTable.current_of_unlink h, ?_⟩
        rintro ⟨depth', g', hr, there, rfl⟩
        obtain ⟨rfl, removed⟩ := Deed.forgot.inj hr
        obtain rfl : g = g' := Option.some.inj (found.symm.trans there)
        have hc := (LockTable.unlink_eq_true_iff ..).1 removed
        rw [LockTable.current_unlink, if_pos ⟨hc, rfl⟩] at h
        cases h
      | @forgotNothing depth next hs missing =>
        refine .inr ⟨h, ?_⟩
        rintro ⟨depth', g', hr, -⟩
        cases hr
      | _ => exact .inr ⟨h, kept nofun⟩
  · rintro (h | ⟨before, stays⟩)
    · exact (step.current_of_acquires h).2
    · by_contra after
      obtain ⟨depth, found, hd, -⟩ := step.removes before after
      exact stays ⟨depth, ⟨k, i⟩, hd, found, rfl⟩

end Thread

namespace Machine

variable {service : Service I ε σ} {m₀ m : Machine K I σ α} {hist : List (Happening K I ε σ)} {k : K} {i : TokenId}

/-- A run up to a happening, the step that it is, with the data that it finds, and the run that follows. -/
theorem Reaches.split_at (run : m₀.Reaches service hist m) {pre post : List (Happening K I ε σ)} {e : Happening K I ε σ}
    (h : hist = pre ++ e :: post) : ∃ m₁ t table data t', m₀.Reaches service pre m₁ ∧ m₁.threads[e.thread]? = some t ∧
      t.Step service e.env m₁.table m₁.data e.deed table data t' ∧
      (m₁.after e.thread table data t').Reaches service post m ∧ e = ⟨e.thread, e.env, m₁.data, e.deed⟩ := by
  induction run generalizing post with
  | here => simp at h
  | start p _ ih =>
    obtain ⟨m₁, t, table, data, t', before, thread, step, after, data_eq⟩ := ih h
    exact ⟨m₁, t, table, data, t', before, thread, step, .start p after, data_eq⟩
  | @step hist m i env t d table data t' run thread step ih =>
    rcases concat_eq_cut h with ⟨rfl, rfl, rfl⟩ | ⟨post, rfl, rfl⟩
    · exact ⟨m, t, table, data, t', run, thread, step, .here, rfl⟩
    · obtain ⟨m₁, t₁, table₁, data₁, t₁', before, thread₁, step₁, after, data_eq⟩ := ih rfl
      exact ⟨m₁, t₁, table₁, data₁, t₁', before, thread₁, step₁, .step after thread step, data_eq⟩

theorem Reaches.split (run : m₀.Reaches service hist m) {pre post : List (Happening K I ε σ)} {e : Happening K I ε σ}
    (h : hist = pre ++ e :: post) : ∃ m₁ t table data t', m₀.Reaches service pre m₁ ∧ m₁.threads[e.thread]? = some t ∧
      t.Step service e.env m₁.table m₁.data e.deed table data t' ∧
      (m₁.after e.thread table data t').Reaches service post m := by
  obtain ⟨m₁, t, table, data, t', before, thread, step, after, -⟩ := run.split_at h
  exact ⟨m₁, t, table, data, t', before, thread, step, after⟩

theorem Reaches.evolves (run : m₀.Reaches service hist m) : m₀.table.Evolves m.table := by
  induction run with
  | here => exact .refl _
  | start _ _ ih => exact ih
  | step _ _ step ih => exact ih.trans step.evolves

/-! ## tokens and their keys -/

/-- A token that was handed out is made, and is the entry of no other key. -/
theorem Reaches.acquired (run : m₀.Reaches service hist m) (sound : m₀.Sound) {e : Happening K I ε σ} (he : e ∈ hist)
    (acquires : e.deed.Acquires k i) :
    i < m.table.tokens.length ∧ ∀ j, m.table.current j = some i → j = k := by
  obtain ⟨pre, post, rfl⟩ := List.append_of_mem he
  obtain ⟨m₁, t, table, data, t', before, thread, step, after⟩ := run.split rfl
  have sound₁ := (before.sound sound).step thread step
  have entry : (m₁.after e.thread table data t').table.current k = some i := (step.current_of_acquires acquires).2
  have made := sound₁.made k i entry
  refine ⟨Nat.lt_of_lt_of_le made after.evolves.made, fun j hj => ?_⟩
  exact sound₁.distinct j k i (after.evolves.current_of_made made hj) entry

/-- Every token that is made was handed out. -/
theorem Reaches.acquired_of_made (run : m₀.Reaches service hist m) (none : m₀.table.tokens = [])
    (made : i < m.table.tokens.length) : ∃ e ∈ hist, ∃ k, e.deed.Acquires k i := by
  induction run with
  | here =>
    rw [none] at made
    exact absurd made (Nat.not_lt_zero i)
  | start _ _ ih => exact ih made
  | step _ _ step ih =>
    rcases step.made_or_acquires made with made | acquires
    · obtain ⟨e, he, acquires⟩ := ih made
      exact ⟨e, List.mem_append_left _ he, acquires⟩
    · exact ⟨_, List.mem_concat_self, acquires⟩

/-- Every token is handed out for one key only. -/
theorem Reaches.key_unique (run : m₀.Reaches service hist m) (sound : m₀.Sound) {k' : K} {e e' : Happening K I ε σ}
    (he : e ∈ hist) (he' : e' ∈ hist) (acquires : e.deed.Acquires k i) (acquires' : e'.deed.Acquires k' i) :
    k = k' := by
  -- the later of the two finds the token as the entry, which it can be of one key only
  obtain ⟨pre, post, rfl⟩ := List.append_of_mem he
  obtain ⟨m₁, t, table, data, t', before, thread, step, -⟩ := run.split rfl
  rcases List.mem_append.1 he' with he' | he'
  · have run₁ := before.step thread step
    exact (run₁.acquired sound (List.mem_append_left _ he') acquires').2 k (step.current_of_acquires acquires).2
  · rcases List.mem_cons.1 he' with rfl | he'
    · rcases acquires with h | h <;> rcases acquires' with h' | h' <;> cases h.symm.trans h' <;> rfl
    · obtain ⟨mid, rest, rfl⟩ := List.append_of_mem he'
      have run' : m₀.Reaches service ((pre ++ e :: mid) ++ e' :: rest) m := by simpa using run
      obtain ⟨m₂, t₂, table₂, data₂, t₂', before₂, thread₂, step₂, -⟩ := run'.split rfl
      have run₂ := before₂.step thread₂ step₂
      have mem : e ∈ (pre ++ e :: mid) ++ [⟨e'.thread, e'.env, m₂.data, e'.deed⟩] := by simp
      exact ((run₂.acquired sound mem acquires).2 k' (step₂.current_of_acquires acquires').2).symm

/-- Some thread is between the two steps of a forgetting under the token `i`. -/
def Forgetting (m : Machine K I σ α) (i : TokenId) : Prop :=
  ∃ (n : Nat) (t : Thread K I α) (h : Held K), m.threads[n]? = some t ∧ t.ending? = some h ∧ h.token = i

/-- Unless it is being forgotten, a token of a key is the entry exactly if it is not retired. -/
theorem Sound.current_iff_unretired (sound : m.Sound) (made : i < m.table.tokens.length)
    (keyed : ∀ j, m.table.current j = some i → j = k) (calm : ¬ m.Forgetting i) :
    m.table.current k = some i ↔ (m.table.token i).retired = false := by
  constructor
  · intro entry
    by_contra hr
    obtain ⟨n, t, ht, ending⟩ := sound.ending k i entry (by simpa using hr)
    exact calm ⟨n, t, ⟨k, i⟩, ht, ending, rfl⟩
  · intro hr
    obtain ⟨j, hj⟩ := sound.listed i made hr
    exact keyed j hj ▸ hj

/-- The token of a section that is not in the midst of forgetting is the entry exactly if it is not retired. -/
theorem Sound.current_iff_of_ready (sound : m.Sound) {n : Nat} {t : Thread K I α} (ht : m.threads[n]? = some t)
    (ready : t.ending? = none) {h : Held K} (hh : h ∈ t.sections) :
    m.table.current h.key = some h.token ↔ (m.table.token h.token).retired = false := by
  have fits := sound.fits n t ht
  have mem := Thread.token_mem_tokens hh
  refine sound.current_iff_unretired (fits.holds _ mem).1 (fits.keyed h hh) ?_
  rintro ⟨n', t', h', ht', ending, same⟩
  have mem' := Thread.token_mem_tokens (Thread.mem_of_ending? ending)
  have hn : n' = n := sound.apart n' n t' t h.token ht' ht (same ▸ mem') mem
  subst hn
  rw [ht] at ht'
  cases ht'
  cases ready.symm.trans ending

/-! ## the entries in the history -/

/-- What the history shows of an ending forgetting is what the thread does. -/
theorem Reaches.unlinks_iff (run : m₀.Reaches service hist m) (h₀ : m₀.threads = []) {n : Nat} {t : Thread K I α}
    (ht : m.threads[n]? = some t) {env : ε} {data : σ} {d : Deed K I} :
    Unlinks hist ⟨n, env, data, d⟩ k ↔ ∃ depth h, d = .forgot depth true ∧ t.sections[depth]? = some h ∧ h.key = k := by
  have sections : (staysOf n hist).map (·.held) = t.sections := run.sections_of_thread h₀ ht
  constructor
  · rintro ⟨depth, s, hd, found, hk⟩
    exact ⟨depth, s.held, hd, section_at sections found, hk⟩
  · rintro ⟨depth, h, hd, found, hk⟩
    rw [← sections, List.getElem?_map] at found
    obtain ⟨s, there, rfl⟩ := Option.map_eq_some_iff.1 found
    exact ⟨depth, s, hd, there, hk⟩

/-- The entries of the table are the keys that were acquired and have not been removed since, each with the token that
was handed out. -/
theorem Reaches.current_iff (run : m₀.Reaches service hist m) (h₀ : m₀.threads = [])
    (bare : ∀ k, m₀.table.current k = none) : m.table.current k = some i ↔ Given hist k i := by
  induction run with
  | here =>
    rw [bare]
    exact ⟨nofun, fun h => (not_given_nil h).elim⟩
  | start _ _ ih => exact ih
  | step run thread step ih =>
    rw [given_append, ← ih, run.unlinks_iff h₀ thread]
    exact step.current_iff

/-- Two acquirings of a key get the same token exactly if no forgetting between them removes the entry. -/
theorem Reaches.same_token_iff (run : m₀.Reaches service hist m) (h₀ : m₀.threads = []) (sound : m₀.Sound)
    (bare : ∀ k, m₀.table.current k = none) {pre mid post : List (Happening K I ε σ)} {e e' : Happening K I ε σ}
    {i' : TokenId} (h : hist = pre ++ e :: (mid ++ e' :: post)) (acquires : e.deed.Acquires k i)
    (acquires' : e'.deed.Acquires k i') : i = i' ↔ Unforgotten (pre ++ [e]) k mid := by
  have h' : hist = (pre ++ e :: mid) ++ e' :: post := by simpa using h
  obtain ⟨m₁, t, table, data, t', before, thread, step, -⟩ := run.split h'
  have later := step.current_of_acquires acquires'
  constructor
  · rintro rfl mid₁ x mid₂ rfl ⟨depth, s, hx, found, hk⟩
    -- the token was made before it was removed, and so it does not come back
    have before' : m₀.Reaches service ((pre ++ e :: mid₁) ++ x :: mid₂) m₁ := by simpa using before
    obtain ⟨m₂, t₂, table₂, data₂, t₂', before₂, thread₂, step₂, after₂⟩ := before'.split rfl
    have made := (before₂.acquired sound (by simp) acquires).1
    have entry := (after₂.evolves.trans step.evolves).current_of_made (Nat.lt_of_lt_of_le made step₂.evolves.made)
      later.2
    have unlinks : Unlinks (pre ++ e :: mid₁) ⟨x.thread, x.env, m₂.data, x.deed⟩ k :=
      ⟨depth, s, hx, by simpa using found, hk⟩
    rw [before₂.unlinks_iff h₀ thread₂] at unlinks
    rcases (step₂.current_iff (k := k) (i := i)).1 entry with hd | ⟨-, kept⟩
    · rw [hx] at hd
      rcases hd with hd | hd <;> cases hd
    · exact kept unlinks
  · intro since
    have given : Given (pre ++ e :: mid) k i := ⟨pre, e, mid, rfl, acquires, since⟩
    have entry := (before.current_iff h₀ bare).2 given
    rw [← later.1, LockTable.acquire, entry]

/-! ## the reply to a forgetting -/

/-- While a thread does nothing, it stays as it is, and so does the entry of each of its sections. -/
theorem Reaches.entry_of_idle (run : m₀.Reaches service hist m) (sound : m₀.Sound) {n : Nat} {t : Thread K I α}
    (ht : m₀.threads[n]? = some t) (idle : deedsOf n hist = []) :
    m.threads[n]? = some t ∧
      ∀ h ∈ t.sections, m.table.current h.key = some h.token ↔ m₀.table.current h.key = some h.token := by
  induction run with
  | here => exact ⟨ht, fun _ _ => Iff.rfl⟩
  | start p _ ih =>
    obtain ⟨thread, entry⟩ := ih idle
    exact ⟨threads_start.2 (.inl thread), entry⟩
  | @step hist m j env x d table data x' run thread step ih =>
    rw [deedsOf_append, deedsOf_one] at idle
    obtain ⟨idle, last⟩ := List.append_eq_nil_iff.1 idle
    have hne : n ≠ j := by
      rintro rfl
      rw [if_pos rfl] at last
      cases last
    obtain ⟨mine, entry⟩ := ih idle
    have sound₁ := run.sound sound
    refine ⟨(threads_after_of_ne hne).trans mine, fun h hh => ?_⟩
    rw [← entry h hh]
    have mem := Thread.token_mem_tokens hh
    constructor
    · exact step.evolves.current_of_made ((sound₁.fits n t mine).holds _ mem).1
    · -- only a section that holds the token could remove the entry
      intro entry
      by_contra gone
      obtain ⟨depth, found, -, -⟩ := step.removes entry gone
      exact hne (sound₁.apart n j t x h.token mine thread mem
        (Thread.token_mem_tokens (h := ⟨h.key, h.token⟩) (List.mem_of_getElem? found)))

/-- A section that has ended forgetting holds a token which is no entry. -/
theorem Reaches.not_current_of_ended (run : m₀.Reaches service hist m) (h₀ : m₀.threads = []) (sound : m₀.Sound)
    {n : Nat} : ∀ s ∈ staysOf n hist, s.ended ≠ 0 → m.table.current s.held.key ≠ some s.held.token := by
  induction run with
  | here => simp [staysOf, stays, deedsOf]
  | start p _ ih => exact ih
  | @step hist m j env t d table data t' run thread step ih =>
    have old : ∀ s ∈ staysOf n hist, s.ended ≠ 0 → table.current s.held.key ≠ some s.held.token := by
      intro s hs he entry
      obtain ⟨x, hx, hm⟩ := run.thread_of_stay h₀ hs
      have made := (((run.sound sound).fits n x hx).holds _ (Thread.token_mem_tokens hm)).1
      exact ih s hs he (step.evolves.current_of_made made entry)
    rw [staysOf_append]
    by_cases hj : j = n
    · subst hj
      have hsections := run.sections_of_thread h₀ thread
      rw [if_pos rfl]
      intro s mem he
      cases Deed.after_of_mem mem with
      | opened => exact absurd rfl he
      | @began _ s₀ found => exact old s₀ (List.mem_of_getElem? found) he
      | @ended depth _ s₀ found =>
        cases step with
        | forgot there =>
          cases there.symm.trans (section_at hsections found)
          exact LockTable.current_unlink_ne m.table s₀.held.key s₀.held.token
        | forgotNothing missing => cases missing.symm.trans (section_at hsections found)
      | kept found => exact old s (List.mem_of_getElem? found) he
    · rw [if_neg hj]
      exact old

/-- A second forgetting of a section finds nothing to remove. -/
theorem Reaches.forgot_again (run : m₀.Reaches service hist m) (h₀ : m₀.threads = []) (sound : m₀.Sound) {n : Nat}
    {pre post : List (Deed K I)} {depth : Nat} {b : Bool} (split : deedsOf n hist = pre ++ .forgot depth b :: post)
    {s : Stay K} (hs : (stays pre)[depth]? = some s) (he : s.ended ≠ 0) : b = false := by
  obtain ⟨before, e, after, rfl, rfl, rfl, hd⟩ := deedsOf_split split
  obtain ⟨m₁, t, table, data, t', run₁, thread, step, -⟩ := run.split rfl
  have gone := run₁.not_current_of_ended h₀ sound s (List.mem_of_getElem? hs) he
  have there := section_at (run₁.sections_of_thread h₀ thread) hs
  rw [hd] at step
  cases step with
  | forgot found =>
    cases found.symm.trans there
    exact Bool.eq_false_iff.2 fun hb => gone ((LockTable.unlink_eq_true_iff ..).1 hb)
  | forgotNothing => rfl

/-- A forgetting of a section that begins and ends after whatever the others do meanwhile: it replies true exactly if
the token was not retired when it began, which is if it removes the entry. Otherwise it leaves all entries as they are,
and in any case those of the other keys. -/
theorem Sound.forget_reply (sound : m.Sound) {n depth : Nat} {next : Bool → Program K I α} {h : Held K}
    {hs : List (Held K)} (ht : m.threads[n]? = some ⟨.forget depth next, .ready, hs⟩) (found : hs[depth]? = some h)
    (env env' : ε) (later : List (Move K I ε α))
    (idle : deedsOf n ((m.move service (.advance n env)).history service later) = []) :
    let m₁ := (m.move service (.advance n env)).run service later
    let m₂ := m₁.move service (.advance n env')
    ∃ b, m₁.happening? service (.advance n env') = some ⟨n, env', m₁.data, .forgot depth b⟩ ∧
      m₂.threads[n]? = some ⟨next b, .ready, hs⟩ ∧
      (b = true ↔ (m.table.token h.token).retired = false) ∧
      (b = true ↔ m₁.table.current h.key = some h.token ∧ m₂.table.current h.key = none) ∧
      ∀ k, b = false ∨ k ≠ h.key → m₂.table.current k = m₁.table.current k := by
  have began : m.move service (.advance n env) =
      m.after n (m.table.retire h.token) m.data ⟨.forget depth next, .retiring, hs⟩ := by
    simp [move, advance?, ht, found, Thread.step?, after]
  rw [began] at idle ⊢
  have step : Thread.Step service env m.table m.data ⟨.forget depth next, .ready, hs⟩ (.retired depth)
      (m.table.retire h.token) m.data ⟨.forget depth next, .retiring, hs⟩ := .retired found
  have sound₁ := sound.step ht step
  obtain ⟨thread, entry⟩ := (reaches_run service later _).entry_of_idle sound₁ (threads_after_self ht) idle
  intro m₁ m₂
  have thread : m₁.threads[n]? = some ⟨.forget depth next, .retiring, hs⟩ := thread
  have entry : m₁.table.current h.key = some h.token ↔ m.table.current h.key = some h.token :=
    entry h (List.mem_of_getElem? found)
  have ended : m₂ = m₁.after n (m₁.table.unlink h.key h.token).2 m₁.data
      ⟨next (m₁.table.unlink h.key h.token).1, .ready, hs⟩ := by
    simp [m₂, move, advance?, thread, found, Thread.step?, after]
  have unlinked (k : K) : m₂.table.current k =
      if m₁.table.current h.key = some h.token ∧ h.key = k then none else m₁.table.current k := by
    rw [ended]
    exact LockTable.current_unlink ..
  refine ⟨(m₁.table.unlink h.key h.token).1, by simp [happening?, thread, found, Thread.deed?], ?_, ?_, ?_, fun k hk => ?_⟩
  · rw [ended]
    exact threads_after_self thread
  · rw [LockTable.unlink_eq_true_iff, entry]
    exact sound.current_iff_of_ready ht rfl (List.mem_of_getElem? found)
  · rw [LockTable.unlink_eq_true_iff, unlinked]
    exact ⟨fun hc => ⟨hc, if_pos ⟨hc, rfl⟩⟩, fun hc => hc.1⟩
  · rw [unlinked, if_neg]
    rintro ⟨hc, rfl⟩
    rcases hk with hk | hk
    · rw [(LockTable.unlink_eq_true_iff ..).2 hc] at hk
      cases hk
    · exact hk rfl

/-- **The identity of tokens.** In every state of every run on a fresh table, under either policy and whatever its threads
run:

* every token instance was handed out, for one key only, and is the entry of no other; unless a thread is just forgetting
  it, it is the entry of its key exactly if it is not retired;
* a retired token stays retired, and once it is not the entry it never is again;
* an entry is removed only at the end of a forgetting, of an open section that holds this very token;
* a forgetting of a section, from inside of it or of one that it is around, replies true exactly if it has removed the
  entry, which is if the token was not retired when it began; otherwise all entries stay as they are;
* a further forgetting of a section replies false;
* the keys of the table are those that were acquired and not removed by a forgetting since, and two acquirings of a key
  get the same token exactly if no forgetting between them has removed its entry. -/
theorem token_identity (service : Service I ε σ) (policy : TokenPolicy) (data : σ) (moves : List (Move K I ε α)) :
    let start : Machine K I σ α := { table := .new policy, data := data }
    let m := start.run service moves
    let hist := start.history service moves
    (∀ i < m.table.tokens.length, ∃ k, (∃ e ∈ hist, e.deed.Acquires k i) ∧
      (∀ e ∈ hist, ∀ j, e.deed.Acquires j i → j = k) ∧ (∀ j, m.table.current j = some i → j = k) ∧
      (¬ m.Forgetting i → (m.table.current k = some i ↔ (m.table.token i).retired = false))) ∧
    (∀ i later, (m.table.token i).retired = true → ((m.run service later).table.token i).retired = true ∧
      ∀ k, m.table.current k ≠ some i → (m.run service later).table.current k ≠ some i) ∧
    (∀ k i mv, m.table.current k = some i → (m.move service mv).table.current k ≠ some i → ∃ n env t,
      mv = .advance n env ∧ m.threads[n]? = some t ∧ (m.table.token i).held = true ∧ ∃ depth,
        m.happening? service mv = some ⟨n, env, m.data, .forgot depth true⟩ ∧ t.sections[depth]? = some ⟨k, i⟩) ∧
    (∀ n depth next hs h env later env', m.threads[n]? = some ⟨.forget depth next, .ready, hs⟩ → hs[depth]? = some h →
      deedsOf n ((m.move service (.advance n env)).history service later) = [] →
      let m₁ := (m.move service (.advance n env)).run service later
      let m₂ := m₁.move service (.advance n env')
      ∃ b, m₁.happening? service (.advance n env') = some ⟨n, env', m₁.data, .forgot depth b⟩ ∧
        m₂.threads[n]? = some ⟨next b, .ready, hs⟩ ∧
        (b = true ↔ (m.table.token h.token).retired = false) ∧
        (b = true ↔ m₁.table.current h.key = some h.token ∧ m₂.table.current h.key = none) ∧
        ∀ k, b = false ∨ k ≠ h.key → m₂.table.current k = m₁.table.current k) ∧
    (∀ n pre depth b post, deedsOf n hist = pre ++ .forgot depth b :: post → ∀ s, (stays pre)[depth]? = some s →
      s.ended ≠ 0 → b = false) ∧
    (m.table.keys.Nodup ∧ m.table.size = m.table.keys.length ∧ ∀ k, k ∈ m.table.keys ↔ ∃ i, Given hist k i) ∧
    ∀ pre e mid e' post k i i', hist = pre ++ e :: (mid ++ e' :: post) → e.deed.Acquires k i →
      e'.deed.Acquires k i' → (i = i' ↔ Unforgotten (pre ++ [e]) k mid) := by
  intro start m hist
  have run : start.Reaches service hist m := reaches_run service moves start
  have sound₀ : start.Sound := sound_new policy data
  have sound : m.Sound := run.sound sound₀
  have bare (k : K) : start.table.current k = none := rfl
  refine ⟨fun i made => ?_, fun i later hr => ?_, fun k i mv before after => ?_, ?_, ?_, ⟨m.table.entries.keys_nodup,
    m.table.entries.length_keys.symm, fun k => ?_⟩, ?_⟩
  · obtain ⟨e, he, k, acquires⟩ := run.acquired_of_made rfl made
    have keyed := (run.acquired sound₀ he acquires).2
    exact ⟨k, ⟨e, he, acquires⟩, fun e' he' j acquires' => run.key_unique sound₀ he' he acquires' acquires, keyed,
      sound.current_iff_unretired made keyed⟩
  · have evolves := (reaches_run service later m).evolves
    have made : i < m.table.tokens.length := LockTable.made_of_retired hr
    exact ⟨evolves.retired i hr, fun k out entry => out (evolves.current_of_made made entry)⟩
  · rcases m.move_cases service mv with ⟨p, -, -, hm⟩ | ⟨n, env, t, d, table, data', t', rfl, ht, step, hh, hm⟩ | ⟨-, hm⟩
    · rw [hm] at after
      exact absurd before after
    · rw [hm] at after
      obtain ⟨depth, found, rfl, -⟩ := step.removes before after
      have mem : i ∈ t.tokens := Thread.token_mem_tokens (h := ⟨k, i⟩) (List.mem_of_getElem? found)
      exact ⟨n, env, t, rfl, ht, ((sound.fits n t ht).holds i mem).2, depth, hh, found⟩
    · rw [hm] at after
      exact absurd before after
  · intro n depth next hs h env later env' ht found idle
    exact sound.forget_reply ht found env env' later idle
  · intro n pre depth b post split s hs he
    exact run.forgot_again rfl sound₀ split hs he
  · rw [LockTable.keys, ← Assoc.get?_isSome, Option.isSome_iff_exists]
    exact exists_congr fun i => run.current_iff rfl bare
  · intro pre e mid e' post k i i' hh acquires acquires'
    exact run.same_token_iff rfl sound₀ bare hh acquires acquires'

end Machine

end CorrelationBarrier
