import CorrelationBarrier.Proofs.History

/-!
# Tokens in a run

Who holds which token, and which tokens are entries of the table, in every state of every run, under either policy.

* `LockTable.Evolves` — what no access undoes: tokens stay made and retired, and only fresh ones become entries;
* `Thread.Fits` — the tokens of a thread are its own as far as the table shows;
* `Machine.Sound` — all threads fit, no token is held twice, and a token is an entry of one key until it is retired;
* `Machine.Sound.step`, `Machine.Reaches.sound` — a step keeps this, and so does a run.
-/

namespace CorrelationBarrier

variable {K : Type} {I : Interface} {σ ε α : Type}

/-! ## accesses and the states of tokens -/

namespace LockTable

theorem token_setToken (t : LockTable K) (i j : TokenId) (f : Token → Token) :
    (t.setToken i f).token j = if i = j ∧ i < t.tokens.length then f (t.token i) else t.token j := by
  simp only [token, setToken, List.getD_eq_getElem?_getD, List.getElem?_set]
  by_cases hij : i = j
  · subst hij
    by_cases hi : i < t.tokens.length <;> simp [hi]
  · simp [hij]

/-- A token that was never made counts as a fresh one. -/
theorem token_of_unmade {t : LockTable K} {i : TokenId} (h : t.tokens.length ≤ i) : t.token i = {} := by
  simp [token, List.getElem?_eq_none h]

/-- A token that was never made is not held, so letting go of it changes nothing. -/
theorem token_release (t : LockTable K) (i j : TokenId) :
    (t.release i).token j = if i = j then { t.token j with held := false } else t.token j := by
  rw [release, token_setToken]
  by_cases hij : i = j
  · subst hij
    by_cases made : i < t.tokens.length
    · simp [made]
    · simp [made, token_of_unmade (Nat.le_of_not_lt made)]
  · simp [hij]

theorem token_hold_of_ne {t : LockTable K} {i j : TokenId} (h : i ≠ j) : (t.hold i).token j = t.token j := by
  rw [hold, token_setToken, if_neg fun e => h e.1]

theorem token_retire_of_ne {t : LockTable K} {i j : TokenId} (h : i ≠ j) : (t.retire i).token j = t.token j := by
  rw [retire, token_setToken, if_neg fun e => h e.1]

@[simp] theorem length_setToken (t : LockTable K) (i : TokenId) (f : Token → Token) :
    (t.setToken i f).tokens.length = t.tokens.length := by simp [setToken]

@[simp] theorem length_hold (t : LockTable K) (i : TokenId) : (t.hold i).tokens.length = t.tokens.length :=
  length_setToken ..

@[simp] theorem length_release (t : LockTable K) (i : TokenId) : (t.release i).tokens.length = t.tokens.length :=
  length_setToken ..

@[simp] theorem length_retire (t : LockTable K) (i : TokenId) : (t.retire i).tokens.length = t.tokens.length :=
  length_setToken ..

@[simp] theorem retired_hold (t : LockTable K) (i j : TokenId) :
    ((t.hold i).token j).retired = (t.token j).retired := by
  rw [hold, token_setToken]
  split
  · rename_i h; rw [h.1]
  · rfl

@[simp] theorem retired_release (t : LockTable K) (i j : TokenId) :
    ((t.release i).token j).retired = (t.token j).retired := by
  rw [release, token_setToken]
  split
  · rename_i h; rw [h.1]
  · rfl

@[simp] theorem held_retire (t : LockTable K) (i j : TokenId) :
    ((t.retire i).token j).held = (t.token j).held := by
  rw [retire, token_setToken]
  split
  · rename_i h; rw [h.1]
  · rfl

theorem held_hold_self {t : LockTable K} {i : TokenId} (h : i < t.tokens.length) :
    ((t.hold i).token i).held = true := by
  rw [hold, token_setToken, if_pos ⟨rfl, h⟩]

theorem held_hold {t : LockTable K} {i j : TokenId} (h : (t.token j).held = true) :
    ((t.hold i).token j).held = true := by
  rw [hold, token_setToken]
  split
  · rfl
  · exact h

theorem held_release_of_ne {t : LockTable K} {i j : TokenId} (h : i ≠ j) :
    ((t.release i).token j).held = (t.token j).held := by
  rw [release, token_setToken, if_neg fun e => h e.1]

theorem retired_retire_self {t : LockTable K} {i : TokenId} (h : i < t.tokens.length) :
    ((t.retire i).token i).retired = true := by
  rw [retire, token_setToken, if_pos ⟨rfl, h⟩]

theorem retired_retire_of_ne {t : LockTable K} {i j : TokenId} (h : i ≠ j) :
    ((t.retire i).token j).retired = (t.token j).retired := by
  rw [retire, token_setToken, if_neg fun e => h e.1]

theorem retired_retire {t : LockTable K} {i j : TokenId} (h : (t.token j).retired = true) :
    ((t.retire i).token j).retired = true := by
  rw [retire, token_setToken]
  split
  · rfl
  · exact h

/-- A table that does not check tokens rejects none, and one that does rejects the retired ones. -/
theorem rejects_eq_false_iff {t : LockTable K} {i : TokenId} :
    t.rejects i = false ↔ (t.policy = .validated → (t.token i).retired = false) := by
  simp only [rejects, Bool.and_eq_false_iff, decide_eq_false_iff_not]
  constructor
  · rintro (h | h) hp
    · exact h
    · exact absurd hp h
  · intro h
    by_cases hp : t.policy = .validated
    · exact .inl (h hp)
    · exact .inr hp

variable [DecidableEq K]

@[simp] theorem current_hold (t : LockTable K) (i : TokenId) (k : K) : (t.hold i).current k = t.current k := rfl

@[simp] theorem current_release (t : LockTable K) (i : TokenId) (k : K) : (t.release i).current k = t.current k := rfl

@[simp] theorem current_retire (t : LockTable K) (i : TokenId) (k : K) : (t.retire i).current k = t.current k := rfl

/-- Making a token changes no token: one that is not made yet counts as fresh. -/
@[simp] theorem token_acquire (t : LockTable K) (k : K) (i : TokenId) : (t.acquire k).2.token i = t.token i := by
  unfold acquire
  split
  · rfl
  · simp only [token, List.getD_eq_getElem?_getD, List.getElem?_append]
    split
    · rfl
    · rename_i h
      rw [List.getElem?_eq_none (Nat.le_of_not_lt h)]
      cases i - t.tokens.length <;> rfl

@[simp] theorem token_unlink (t : LockTable K) (k : K) (j i : TokenId) : (t.unlink k j).2.token i = t.token i := by
  unfold unlink
  split <;> rfl

@[simp] theorem length_unlink (t : LockTable K) (k : K) (i : TokenId) :
    (t.unlink k i).2.tokens.length = t.tokens.length := by
  unfold unlink
  split <;> rfl

theorem length_le_acquire (t : LockTable K) (k : K) : t.tokens.length ≤ (t.acquire k).2.tokens.length := by
  unfold acquire
  split <;> simp

/-- Where the entries after `acquire` come from. -/
theorem current_acquire_cases {t : LockTable K} {k j : K} {i : TokenId} (h : (t.acquire k).2.current j = some i) :
    t.current j = some i ∨ j = k ∧ i = t.tokens.length ∧ (t.acquire k).2.tokens.length = t.tokens.length + 1 := by
  by_cases hj : k = j
  · subst hj
    cases hk : t.current k with
    | some i' => simpa [acquire, hk] using h
    | none =>
      rw [current_acquire] at h
      right
      simpa [acquire, hk, eq_comm] using h
  · rw [current_acquire_of_ne hj] at h
    exact .inl h

theorem current_acquire_of_some {t : LockTable K} {k j : K} {i : TokenId} (h : t.current j = some i) :
    (t.acquire k).2.current j = some i := by
  by_cases hj : k = j
  · subst hj
    simp [acquire, h]
  · rw [current_acquire_of_ne hj, h]

theorem current_of_unlink {t : LockTable K} {k j : K} {i i' : TokenId} (h : (t.unlink k i).2.current j = some i') :
    t.current j = some i' := by
  rw [current_unlink] at h
  split at h
  · cases h
  · exact h

/-- Who removes the entry of a key if it is a certain token leaves no such entry. -/
theorem current_unlink_ne (t : LockTable K) (k : K) (i : TokenId) : (t.unlink k i).2.current k ≠ some i := by
  intro entry
  have before := current_of_unlink entry
  rw [current_unlink, if_pos ⟨before, rfl⟩] at entry
  cases entry

/-- The token of a key that was just acquired is made. -/
theorem acquire_lt {t : LockTable K} {k : K} (h : ∀ k i, t.current k = some i → i < t.tokens.length) :
    (t.acquire k).1 < (t.acquire k).2.tokens.length := by
  rcases current_acquire_cases (current_acquire t k) with hc | ⟨-, hi, hl⟩
  · exact Nat.lt_of_lt_of_le (h k _ hc) (length_le_acquire t k)
  · rw [hi, hl]
    exact Nat.lt_succ_self _

/-! ## what no access undoes -/

/-- `table'` comes after `table`: tokens stay made and retired, and an entry that is new is a token that is new. -/
structure Evolves (table table' : LockTable K) : Prop where
  policy : table'.policy = table.policy
  made : table.tokens.length ≤ table'.tokens.length
  retired : ∀ i, (table.token i).retired = true → (table'.token i).retired = true
  entries : ∀ k i, table'.current k = some i → table.current k = some i ∨ table.tokens.length ≤ i

theorem Evolves.refl (t : LockTable K) : t.Evolves t := ⟨rfl, Nat.le_refl _, fun _ h => h, fun _ _ h => .inl h⟩

theorem evolves_acquire (t : LockTable K) (k : K) : t.Evolves (t.acquire k).2 where
  policy := by unfold acquire; split <;> rfl
  made := length_le_acquire t k
  retired i h := by simpa using h
  entries j i h := by
    rcases current_acquire_cases h with h | ⟨-, rfl, -⟩
    · exact .inl h
    · exact .inr (Nat.le_refl _)

theorem evolves_hold (t : LockTable K) (i : TokenId) : t.Evolves (t.hold i) :=
  ⟨rfl, by simp, fun _ h => by simpa using h, fun _ _ h => .inl h⟩

theorem evolves_release (t : LockTable K) (i : TokenId) : t.Evolves (t.release i) :=
  ⟨rfl, by simp, fun _ h => by simpa using h, fun _ _ h => .inl h⟩

theorem evolves_retire (t : LockTable K) (i : TokenId) : t.Evolves (t.retire i) :=
  ⟨rfl, by simp, fun _ h => retired_retire h, fun _ _ h => .inl h⟩

theorem evolves_unlink (t : LockTable K) (k : K) (i : TokenId) : t.Evolves (t.unlink k i).2 where
  policy := by unfold unlink; split <;> rfl
  made := by simp
  retired j h := by simpa using h
  entries j i' h := .inl (current_of_unlink h)

end LockTable

/-! ## the tokens of one thread -/

namespace Thread

/-- The section whose key a thread is in the midst of forgetting. -/
def ending? (t : Thread K I α) : Option (Held K) :=
  match t.stage, t.program with
  | .retiring, .forget depth _ => t.sections[depth]?
  | _, _ => none

theorem token_mem_tokens {t : Thread K I α} {h : Held K} (mem : h ∈ t.sections) : h.token ∈ t.tokens := by
  have : h.token ∈ t.sections.map (·.token) := List.mem_map_of_mem mem
  unfold tokens
  split
  · exact List.mem_cons_of_mem _ this
  · exact this

/-- A thread in the midst of forgetting a key has a section of it open. -/
theorem mem_of_ending? {t : Thread K I α} {h : Held K} (ending : t.ending? = some h) : h ∈ t.sections := by
  unfold ending? at ending
  split at ending
  · exact List.mem_of_getElem? ending
  · cases ending

variable [DecidableEq K]

/-- What a thread believes of its tokens is so in the table. -/
structure Fits (table : LockTable K) (t : Thread K I α) : Prop where
  /-- The tokens that it holds are made, and held. -/
  holds : ∀ i ∈ t.tokens, i < table.tokens.length ∧ (table.token i).held = true
  /-- It holds no token twice. -/
  nodup : t.tokens.Nodup
  /-- The token of a section is the entry of no other key. -/
  keyed : ∀ h ∈ t.sections, ∀ k, table.current k = some h.token → k = h.key
  /-- The token that it waits for is made, and is the entry of no other key. -/
  wants : ∀ i, t.stage = .fetched i → i < table.tokens.length ∧
    ∀ k next, t.program = .enter k next → ∀ j, table.current j = some i → j = k
  /-- While it forgets a key, the token of the section is retired. -/
  retiring : ∀ h, t.ending? = some h → (table.token h.token).retired = true

/-- What a thread believes stays so while others act, as long as nobody lets go of its tokens. -/
theorem Fits.mono {table table' : LockTable K} {t : Thread K I α} (fits : t.Fits table)
    (ev : table.Evolves table')
    (held : ∀ i ∈ t.tokens, (table.token i).held = true → (table'.token i).held = true) : t.Fits table' where
  holds i hi := by
    obtain ⟨hlt, hh⟩ := fits.holds i hi
    exact ⟨Nat.lt_of_lt_of_le hlt ev.made, held i hi hh⟩
  nodup := fits.nodup
  keyed h hm k hk := by
    rcases ev.entries k _ hk with hk | hk
    · exact fits.keyed h hm k hk
    · exact absurd (fits.holds _ (token_mem_tokens hm)).1 (Nat.not_lt.2 hk)
  wants i hs := by
    obtain ⟨hlt, hw⟩ := fits.wants i hs
    refine ⟨Nat.lt_of_lt_of_le hlt ev.made, fun k next hp j hj => ?_⟩
    rcases ev.entries j i hj with hj | hj
    · exact hw k next hp j hj
    · exact absurd hlt (Nat.not_lt.2 hj)
  retiring h ending := ev.retired _ (fits.retiring h ending)

theorem Fits.nodup_sections {table : LockTable K} {t : Thread K I α} (fits : t.Fits table) :
    (t.sections.map (·.token)).Nodup := by
  have := fits.nodup
  unfold tokens at this
  split at this
  · exact (List.nodup_cons.1 this).2
  · exact this

/-- A thread that goes on with some of its sections still fits, if their tokens are still held. -/
theorem Fits.resume {table table' : LockTable K} {t : Thread K I α} (fits : t.Fits table)
    (ev : table.Evolves table') {hs : List (Held K)} (sub : hs.Sublist t.sections)
    (held : ∀ h ∈ hs, (table'.token h.token).held = true) (p : Program K I α) :
    Fits table' ⟨p, .ready, hs⟩ where
  holds i hi := by
    obtain ⟨h, hm, rfl⟩ := List.mem_map.1 hi
    exact ⟨Nat.lt_of_lt_of_le (fits.holds _ (token_mem_tokens (sub.subset hm))).1 ev.made, held h hm⟩
  nodup := fits.nodup_sections.sublist (sub.map _)
  keyed h hm k hk := by
    rcases ev.entries k _ hk with hk | hk
    · exact fits.keyed h (sub.subset hm) k hk
    · exact absurd (fits.holds _ (token_mem_tokens (sub.subset hm))).1 (Nat.not_lt.2 hk)
  wants i hs := by cases hs
  retiring h ending := by cases ending

/-- The tokens of a thread with one more that nobody held. -/
theorem Fits.take {table : LockTable K} {t : Thread K I α} (fits : t.Fits table) {i : TokenId}
    (made : i < table.tokens.length) (free : (table.token i).held = false) :
    (∀ j ∈ i :: t.tokens, j < (table.hold i).tokens.length ∧ ((table.hold i).token j).held = true) ∧
      (i :: t.tokens).Nodup := by
  constructor
  · intro j hj
    rw [LockTable.length_hold]
    rcases List.mem_cons.1 hj with rfl | hj
    · exact ⟨made, LockTable.held_hold_self made⟩
    · obtain ⟨hl, hh⟩ := fits.holds j hj
      exact ⟨hl, LockTable.held_hold hh⟩
  · refine List.nodup_cons.2 ⟨fun hi => ?_, fits.nodup⟩
    rw [(fits.holds i hi).2] at free
    cases free

section Step

variable {service : Service I ε σ} {env : ε} {table table' : LockTable K} {data data' : σ} {t t' : Thread K I α}
  {d : Deed K I}

theorem Step.evolves (step : t.Step service env table data d table' data' t') : table.Evolves table' := by
  cases step with
  | fetched | sought => exact LockTable.evolves_acquire ..
  | declined | opened => exact LockTable.evolves_hold ..
  | gaveBack | closed => exact LockTable.evolves_release ..
  | retired => exact LockTable.evolves_retire ..
  | forgot => exact LockTable.evolves_unlink ..
  | _ => exact .refl _

/-- A step lets go of no token but one of the thread's own. -/
theorem Step.held_other (step : t.Step service env table data d table' data' t') {i : TokenId} (hi : i ∉ t.tokens)
    (held : (table.token i).held = true) : (table'.token i).held = true := by
  cases step with
  | fetched | sought => rw [LockTable.token_acquire]; exact held
  | declined | opened => exact LockTable.held_hold held
  | gaveBack =>
    rw [LockTable.held_release_of_ne fun e => hi (by simp [tokens, e])]
    exact held
  | closed =>
    rw [LockTable.held_release_of_ne fun e => hi (by simp [tokens, e])]
    exact held
  | retired => rw [LockTable.held_retire]; exact held
  | forgot => rw [LockTable.token_unlink]; exact held
  | _ => exact held

/-- Where the tokens of a thread come from: it held them before, or it has just taken one that nobody held. -/
theorem Step.mem_tokens (step : t.Step service env table data d table' data' t') {i : TokenId} (hi : i ∈ t'.tokens) :
    i ∈ t.tokens ∨ (table.token i).held = false := by
  cases step with
  | declined free _ | opened free _ =>
    rcases List.mem_cons.1 hi with rfl | hi
    · exact .inr free
    · exact .inl hi
  | gaveBack | closed => exact .inl (List.mem_cons_of_mem _ hi)
  | _ => exact .inl hi

/-- The entries after a step: made tokens, each of one key. -/
theorem Step.entries_made (step : t.Step service env table data d table' data' t')
    (made : ∀ k i, table.current k = some i → i < table.tokens.length) :
    ∀ k i, table'.current k = some i → i < table'.tokens.length := by
  have acquired (k : K) : ∀ j i, (table.acquire k).2.current j = some i → i < (table.acquire k).2.tokens.length := by
    intro j i h
    rcases LockTable.current_acquire_cases h with h | ⟨-, rfl, hl⟩
    · exact Nat.lt_of_lt_of_le (made j i h) (LockTable.length_le_acquire ..)
    · rw [hl]; exact Nat.lt_succ_self _
  cases step with
  | fetched | sought => exact acquired _
  | declined | opened | gaveBack | closed | retired => simpa using made
  | forgot =>
    intro k i h
    rw [LockTable.length_unlink]
    exact made k i (LockTable.current_of_unlink h)
  | _ => exact made

theorem Step.entries_distinct (step : t.Step service env table data d table' data' t')
    (made : ∀ k i, table.current k = some i → i < table.tokens.length)
    (distinct : ∀ k j i, table.current k = some i → table.current j = some i → k = j) :
    ∀ k j i, table'.current k = some i → table'.current j = some i → k = j := by
  have acquired (k₀ : K) : ∀ k j i, (table.acquire k₀).2.current k = some i →
      (table.acquire k₀).2.current j = some i → k = j := by
    intro k j i hk hj
    rcases LockTable.current_acquire_cases hk with hk | ⟨rfl, rfl, -⟩
    · rcases LockTable.current_acquire_cases hj with hj | ⟨-, rfl, -⟩
      · exact distinct k j i hk hj
      · exact absurd (made k _ hk) (Nat.lt_irrefl _)
    · rcases LockTable.current_acquire_cases hj with hj | ⟨rfl, -, -⟩
      · exact absurd (made j _ hj) (Nat.lt_irrefl _)
      · rfl
  cases step with
  | fetched | sought => exact acquired _
  | forgot =>
    intro k j i hk hj
    exact distinct k j i (LockTable.current_of_unlink hk) (LockTable.current_of_unlink hj)
  | _ => exact distinct

/-- The thread that makes the step still fits. -/
theorem Step.fits (step : t.Step service env table data d table' data' t') (fits : t.Fits table)
    (made : ∀ k i, table.current k = some i → i < table.tokens.length)
    (distinct : ∀ k j i, table'.current k = some i → table'.current j = some i → k = j) : t'.Fits table' := by
  have ev := step.evolves
  have sectionHeld : ∀ h ∈ t.sections, (table.token h.token).held = true := fun h hm =>
    (fits.holds _ (token_mem_tokens hm)).2
  cases step with
  | fetched => exact fits.resume ev (List.Sublist.refl _) (by simpa using sectionHeld) _
  | looked | asked | askedNothing | called | closedNothing | forgotNothing =>
    exact fits.resume ev (List.Sublist.refl _) sectionHeld _
  | forgot => exact fits.resume ev (List.Sublist.refl _) (by simpa using sectionHeld) _
  | gaveBack =>
    refine fits.resume ev (List.Sublist.refl _) (fun h hm => ?_) _
    have hne := (List.nodup_cons.1 fits.nodup).1
    rw [LockTable.held_release_of_ne fun e => hne (List.mem_map.2 ⟨h, hm, e.symm⟩)]
    exact sectionHeld h hm
  | closed =>
    refine fits.resume ev (List.sublist_cons_self ..) (fun h hm => ?_) _
    have hne := (List.nodup_cons.1 fits.nodup).1
    rw [LockTable.held_release_of_ne fun e => hne (List.mem_map.2 ⟨h, hm, e.symm⟩)]
    exact sectionHeld h (List.mem_cons_of_mem _ hm)
  | @sought k next hs =>
    have rest := fits.resume ev (List.Sublist.refl _) (by simpa using sectionHeld) (.enter k next)
    refine ⟨rest.holds, rest.nodup, rest.keyed, ?_, nofun⟩
    intro i hi
    cases hi
    refine ⟨LockTable.acquire_lt made, ?_⟩
    intro k' _ hp j hj
    cases hp
    exact distinct j k _ hj (LockTable.current_acquire ..)
  | @declined k next i hs free _ =>
    obtain ⟨holds, nodup⟩ := fits.take (fits.wants i rfl).1 free
    exact ⟨holds, nodup, fits.keyed, nofun, nofun⟩
  | @opened k next i hs free _ =>
    obtain ⟨hlt, hk⟩ := fits.wants i rfl
    obtain ⟨holds, nodup⟩ := fits.take hlt free
    refine ⟨holds, nodup, fun h hm j hj => ?_, nofun, nofun⟩
    rcases List.mem_cons.1 hm with rfl | hm
    · exact hk k next rfl j hj
    · exact fits.keyed h hm j hj
  | @retired depth next h hs found =>
    have hlt := (fits.holds h.token (token_mem_tokens (List.mem_of_getElem? found))).1
    refine ⟨fun i hi => ?_, fits.nodup, fits.keyed, nofun, fun h' ending => ?_⟩
    · rw [LockTable.length_retire, LockTable.held_retire]
      exact fits.holds i hi
    · obtain rfl : h = h' := Option.some.inj (found.symm.trans ending)
      exact LockTable.retired_retire_self hlt

end Step

end Thread

/-! ## the tokens of a machine -/

namespace Machine

variable [DecidableEq K]

/-- The tokens of all threads and the entries of the table are in order. -/
structure Sound (m : Machine K I σ α) : Prop where
  fits : ∀ (n : Nat) (t : Thread K I α), m.threads[n]? = some t → t.Fits m.table
  /-- No token is held by two threads. -/
  apart : ∀ (n n' : Nat) (t t' : Thread K I α) (i : TokenId), m.threads[n]? = some t → m.threads[n']? = some t' →
    i ∈ t.tokens → i ∈ t'.tokens → n = n'
  made : ∀ k i, m.table.current k = some i → i < m.table.tokens.length
  distinct : ∀ k j i, m.table.current k = some i → m.table.current j = some i → k = j
  /-- A token that is not retired is an entry. -/
  listed : ∀ i < m.table.tokens.length, (m.table.token i).retired = false → ∃ k, m.table.current k = some i
  /-- An entry that is retired is about to be removed. -/
  ending : ∀ k i, m.table.current k = some i → (m.table.token i).retired = true →
    ∃ (n : Nat) (t : Thread K I α), m.threads[n]? = some t ∧ t.ending? = some ⟨k, i⟩

theorem sound_new (policy : TokenPolicy) (data : σ) :
    Sound ({ table := .new policy, data := data } : Machine K I σ α) where
  fits n t h := by simp at h
  apart n n' t t' i h := by simp at h
  made k i h := by simp [LockTable.new, LockTable.current, Assoc.get?, Assoc.empty, Assoc.lookup] at h
  distinct k j i h := by simp [LockTable.new, LockTable.current, Assoc.get?, Assoc.empty, Assoc.lookup] at h
  listed i h := by simp [LockTable.new] at h
  ending k i h := by simp [LockTable.new, LockTable.current, Assoc.get?, Assoc.empty, Assoc.lookup] at h

variable {m : Machine K I σ α}

theorem Sound.start (sound : m.Sound) (p : Program K I α) : (m.start p).Sound := by
  have begun (x : Thread K I α) (hx : x = { program := p }) : x.tokens = [] := by rw [hx]; rfl
  refine ⟨?_, ?_, sound.made, sound.distinct, sound.listed, ?_⟩
  · intro n t ht
    rcases threads_start.1 ht with ht | ⟨-, rfl⟩
    · exact sound.fits n t ht
    · exact ⟨by simp [Thread.tokens], by simp [Thread.tokens], by simp, nofun, nofun⟩
  · intro n n' t t' i ht ht' hi hi'
    rcases threads_start.1 ht with ht | ⟨-, hx⟩
    · rcases threads_start.1 ht' with ht' | ⟨-, hx⟩
      · exact sound.apart n n' t t' i ht ht' hi hi'
      · simp [begun _ hx] at hi'
    · simp [begun _ hx] at hi
  · intro k i hk hr
    obtain ⟨n, t, ht, hs⟩ := sound.ending k i hk hr
    exact ⟨n, t, threads_start.2 (.inl ht), hs⟩

section Step

variable {service : Service I ε σ} {env : ε} {i : Nat} {t t' : Thread K I α} {d : Deed K I} {table : LockTable K}
  {data : σ}

theorem Sound.held_of_ne (sound : m.Sound) (ht : m.threads[i]? = some t) {n : Nat} {x : Thread K I α}
    (hx : m.threads[n]? = some x) (hne : n ≠ i) : ∀ j ∈ x.tokens, j ∉ t.tokens :=
  fun j hj hj' => hne (sound.apart n i x t j hx ht hj hj')

/-- No token is held twice after a step: what a thread takes, nobody held. -/
theorem Sound.step_apart (sound : m.Sound) (ht : m.threads[i]? = some t)
    (step : t.Step service env m.table m.data d table data t') {n : Nat} {x : Thread K I α}
    (hx : m.threads[n]? = some x) (hne : n ≠ i) : ∀ j ∈ x.tokens, j ∉ t'.tokens := by
  intro j hj hj'
  rcases step.mem_tokens hj' with h | h
  · exact sound.held_of_ne ht hx hne j hj h
  · rw [((sound.fits n x hx).holds j hj).2] at h
    cases h

theorem Sound.step_listed (sound : m.Sound) (ht : m.threads[i]? = some t)
    (step : t.Step service env m.table m.data d table data t') :
    ∀ j < table.tokens.length, (table.token j).retired = false → ∃ k, table.current k = some j := by
  have acquired (k₀ : K) : ∀ j < (m.table.acquire k₀).2.tokens.length,
      ((m.table.acquire k₀).2.token j).retired = false → ∃ k, (m.table.acquire k₀).2.current k = some j := by
    intro j hj hr
    rw [LockTable.token_acquire] at hr
    by_cases hlt : j < m.table.tokens.length
    · obtain ⟨k, hk⟩ := sound.listed j hlt hr
      exact ⟨k, LockTable.current_acquire_of_some hk⟩
    · refine ⟨k₀, ?_⟩
      rcases LockTable.current_acquire_cases (LockTable.current_acquire m.table k₀) with h | ⟨-, hi, hl⟩
      · rw [LockTable.acquire, h] at hj
        exact absurd hj hlt
      · rw [hl] at hj
        rw [LockTable.current_acquire, hi]
        exact congrArg some (Nat.le_antisymm (Nat.le_of_not_lt hlt) (Nat.le_of_lt_succ hj))
  cases step with
  | fetched | sought => exact acquired _
  | declined | opened | gaveBack | closed => simpa using sound.listed
  | retired =>
    intro j hj hr
    rw [LockTable.length_retire] at hj
    cases hb : (m.table.token j).retired with
    | true =>
      rw [LockTable.retired_retire hb] at hr
      cases hr
    | false => exact sound.listed j hj hb
  | @forgot depth next h hs found =>
    intro j hj hr
    rw [LockTable.length_unlink] at hj
    rw [LockTable.token_unlink] at hr
    obtain ⟨k, hk⟩ := sound.listed j hj hr
    refine ⟨k, ?_⟩
    rw [LockTable.current_unlink, if_neg, hk]
    -- the entry that goes is that of the section's token, which is retired
    rintro ⟨hc, rfl⟩
    rw [hc] at hk
    cases hk
    rw [(sound.fits i _ ht).retiring h found] at hr
    cases hr
  | _ => exact sound.listed

theorem Sound.step_ending (sound : m.Sound) (ht : m.threads[i]? = some t)
    (step : t.Step service env m.table m.data d table data t') :
    ∀ k j, table.current k = some j → (table.token j).retired = true → ∃ (n : Nat) (x : Thread K I α),
      (m.after i table data t').threads[n]? = some x ∧ x.ending? = some ⟨k, j⟩ := by
  -- a thread that is not forgetting was not the one that is about to remove an entry
  have others (calm : t.ending? = none) (k : K) (j : TokenId) (hk : m.table.current k = some j)
      (hr : (m.table.token j).retired = true) : ∃ (n : Nat) (x : Thread K I α),
      (m.after i table data t').threads[n]? = some x ∧ x.ending? = some ⟨k, j⟩ := by
    obtain ⟨n, x, hx, ending⟩ := sound.ending k j hk hr
    refine ⟨n, x, (threads_after ht).2 (.inr ⟨?_, hx⟩), ending⟩
    rintro rfl
    rw [ht] at hx
    cases hx
    cases calm.symm.trans ending
  have acquired (k₀ : K) (k : K) (j : TokenId) (hk : (m.table.acquire k₀).2.current k = some j)
      (hr : ((m.table.acquire k₀).2.token j).retired = true) :
      m.table.current k = some j ∧ (m.table.token j).retired = true := by
    rw [LockTable.token_acquire] at hr
    rcases LockTable.current_acquire_cases hk with h | ⟨-, rfl, -⟩
    · exact ⟨h, hr⟩
    · simp [LockTable.token] at hr
  cases step with
  | fetched | sought =>
    intro k j hk hr
    obtain ⟨hk, hr⟩ := acquired _ k j hk hr
    exact others rfl k j hk hr
  | declined | opened | gaveBack | closed =>
    intro k j hk hr
    exact others rfl k j (by simpa using hk) (by simpa using hr)
  | @retired depth next h hs found =>
    intro k j hk hr
    by_cases hj : h.token = j
    · have hkey : k = h.key := (sound.fits i _ ht).keyed h (List.mem_of_getElem? found) k (hj ▸ hk)
      subst hj hkey
      exact ⟨i, _, threads_after_self ht, found⟩
    · rw [LockTable.retired_retire_of_ne hj] at hr
      exact others rfl k j hk hr
  | @forgot depth next h hs found =>
    intro k j hk hr
    rw [LockTable.token_unlink] at hr
    obtain ⟨n, x, hx, ending⟩ := sound.ending k j (LockTable.current_of_unlink hk) hr
    refine ⟨n, x, (threads_after ht).2 (.inr ⟨?_, hx⟩), ending⟩
    -- the entry that this thread was to remove is gone
    rintro rfl
    rw [ht] at hx
    cases hx
    obtain rfl : h = ⟨k, j⟩ := Option.some.inj (found.symm.trans ending)
    exact LockTable.current_unlink_ne _ _ _ hk
  | _ => exact others rfl

/-- A step keeps the tokens in order. -/
theorem Sound.step (sound : m.Sound) (ht : m.threads[i]? = some t)
    (step : t.Step service env m.table m.data d table data t') : (m.after i table data t').Sound := by
  have fits := sound.fits i t ht
  have made := step.entries_made sound.made
  have distinct := step.entries_distinct sound.made sound.distinct
  refine ⟨?_, ?_, made, distinct, sound.step_listed ht step, sound.step_ending ht step⟩
  · intro n x hx
    rcases (threads_after ht).1 hx with ⟨-, rfl⟩ | ⟨hne, hx⟩
    · exact step.fits fits sound.made distinct
    · exact (sound.fits n x hx).mono step.evolves fun j hj => step.held_other (sound.held_of_ne ht hx hne j hj)
  · intro n n' x x' j hx hx' hj hj'
    rcases (threads_after ht).1 hx with ⟨rfl, rfl⟩ | ⟨hne, hx⟩
    · rcases (threads_after ht).1 hx' with ⟨rfl, -⟩ | ⟨hne', hx'⟩
      · rfl
      · exact absurd hj (sound.step_apart ht step hx' hne' j hj')
    · rcases (threads_after ht).1 hx' with ⟨rfl, rfl⟩ | ⟨-, hx'⟩
      · exact absurd hj' (sound.step_apart ht step ‹_› hne j hj)
      · exact sound.apart n n' x x' j ‹_› hx' hj hj'

end Step

/-- A run keeps the tokens in order. -/
theorem Reaches.sound {service : Service I ε σ} {m₀ m : Machine K I σ α} {hist : List (Happening K I ε σ)}
    (run : m₀.Reaches service hist m) (sound : m₀.Sound) : m.Sound := by
  induction run with
  | here => exact sound
  | start p _ ih => exact ih.start p
  | step _ thread step ih => exact ih.step thread step

end Machine

end CorrelationBarrier
