import LocalSoftware.Common.Defs
import LocalSoftware.Library.Transition
import Mathlib.Data.Finmap

/-!
# The tokens of the reverse proxy

`create_new_token` and `check_auth` of `reverse_proxy_manager.cpp`, over the map `authd_uuids_` of
bins of 20 minutes. Clock readings are those of `CLOCK_MONOTONIC`, in seconds.

`tokens_isolated` says that the checks of one token have no effect on another. A token should be
good for 1200 seconds after its last use: `answersInWindow_iff` says in which runs this is so.
-/

set_option autoImplicit false

namespace LocalSoftware.ReverseProxy

/-- `authd_uuids_`: for the start of each bin, the stamps of its tokens. -/
abbrev AuthdUuids := Finmap fun _ : Int => Finmap fun _ : Str => Nat

/-- `tv_sec / 1200 * 1200`. -/
def currentBin (now : Nat) : Int := ((now / 1200 : Nat) : Int) * 1200

/-- `(current_time / 1200 - 1) * 1200`. -/
def previousBin (now : Nat) : Int := (((now / 1200 : Nat) : Int) - 1) * 1200

/-- `authd_uuids_[b]`; the entry is created by what is assigned to it. -/
def bin (store : AuthdUuids) (b : Int) : Finmap fun _ : Str => Nat := (store.lookup b).getD ∅

/-- `create_new_token`, when it draws the token `ret`. The insertion keeps an entry that exists. -/
def createNewToken (store : AuthdUuids) (ret : Str) (now : Nat) : AuthdUuids :=
  let tokens := bin store (currentBin now)
  store.insert (currentBin now) (if ret ∈ tokens then tokens else tokens.insert ret now)

/-- `prevbucket`. The subscripts come after `contains`, so that they create nothing. -/
def prevbucket (store : AuthdUuids) (token : Str) (now : Nat) : Bool :=
  match (store.lookup (previousBin now)).bind fun tokens => tokens.lookup token with
  | some stamp => decide (1200 < (now : Int) - stamp)
  | none => false

/-- What `check_auth` does with a token in the previous bin. -/
def moveToken (store : AuthdUuids) (token : Str) (now : Nat) : AuthdUuids :=
  let tokens := (bin store (previousBin now)).erase token
  let store := if tokens = ∅ then store.erase (previousBin now)
    else store.insert (previousBin now) tokens
  store.insert (currentBin now) ((bin store (currentBin now)).insert token now)

/-- `check_auth`: the answer and the store. -/
def checkAuth (store : AuthdUuids) (token : Str) (now : Nat) : Bool × AuthdUuids :=
  let prev := prevbucket store token now
  let store := if prev then moveToken store token now else store
  (prev || (currentBin now ∈ store && token ∈ bin store (currentBin now)), store)

/-- The part of a cookie after the first `token=`. -/
def afterToken : Str → Option Str
  | [] => none
  | c :: cs =>
    if "token=".toList.isPrefixOf (c :: cs) then some ((c :: cs).drop 6) else afterToken cs

/-- `get_token`, of the value of the cookie field. -/
def getToken (req : Str) : Option Str :=
  (afterToken req).map fun rest => rest.takeWhile fun c => c ≠ ';' ∧ c ≠ ' '

/-! ## What the store has of a token -/

section Stamp

variable {store : AuthdUuids} {tok token : Str} {now : Nat} {b : Int}

/-- The stamp that a token has in a bin. -/
def stamp (store : AuthdUuids) (tok : Str) (b : Int) : Option Nat :=
  (store.lookup b).bind fun tokens => tokens.lookup tok

theorem lookup_bin : (bin store b).lookup tok = stamp store tok b := by
  unfold bin stamp
  cases store.lookup b with
  | none => exact Finmap.lookup_empty tok
  | some tokens => rfl

theorem mem_bin : tok ∈ bin store b ↔ stamp store tok b ≠ none := by
  rw [← lookup_bin, ne_eq, Finmap.lookup_eq_none, not_not]

theorem previousBin_ne_currentBin (now : Nat) : previousBin now ≠ currentBin now := by
  unfold previousBin currentBin
  omega

theorem stamp_insert (b' : Int) (tokens : Finmap fun _ : Str => Nat) :
    stamp (store.insert b' tokens) tok b =
      if b = b' then tokens.lookup tok else stamp store tok b := by
  unfold stamp
  by_cases hb : b = b'
  · subst hb
    rw [if_pos rfl, Finmap.lookup_insert]
    rfl
  · rw [if_neg hb, Finmap.lookup_insert_of_ne _ hb]

theorem stamp_erase (b' : Int) :
    stamp (store.erase b') tok b = if b = b' then none else stamp store tok b := by
  unfold stamp
  by_cases hb : b = b'
  · subst hb
    rw [if_pos rfl, Finmap.lookup_erase]
    rfl
  · rw [if_neg hb, Finmap.lookup_erase_ne hb]

theorem lookup_insert_token (tokens : Finmap fun _ : Str => Nat) :
    (tokens.insert token now).lookup tok = if tok = token then some now else tokens.lookup tok := by
  by_cases h : tok = token
  · subst h
    rw [if_pos rfl, Finmap.lookup_insert]
  · rw [if_neg h, Finmap.lookup_insert_of_ne _ h]

/-- An insertion that keeps an entry that exists. -/
theorem lookup_keep (tokens : Finmap fun _ : Str => Nat) :
    (if token ∈ tokens then tokens else tokens.insert token now).lookup tok =
      if tok = token then some ((tokens.lookup tok).getD now) else tokens.lookup tok := by
  by_cases htok : tok = token
  · subst htok
    rw [if_pos rfl]
    by_cases hmem : tok ∈ tokens
    · obtain ⟨s, hs⟩ := Finmap.mem_iff.mp hmem
      rw [if_pos hmem, hs, Option.getD_some]
    · rw [if_neg hmem, Finmap.lookup_insert, Finmap.lookup_eq_none.mpr hmem, Option.getD_none]
  · rw [if_neg htok]
    split
    · rfl
    · exact Finmap.lookup_insert_of_ne _ htok

/-- A new token gets its stamp, and nothing else changes. -/
theorem stamp_createNewToken : stamp (createNewToken store token now) tok b =
    if tok = token ∧ b = currentBin now then some ((stamp store tok b).getD now)
    else stamp store tok b := by
  unfold createNewToken
  rw [stamp_insert, lookup_keep, lookup_bin]
  by_cases hb : b = currentBin now
  · subst hb
    simp only [if_true, and_true]
  · rw [if_neg hb, if_neg fun h => hb h.2]

theorem prevbucket_eq_true_iff : prevbucket store token now = true ↔
    ∃ s, stamp store token (previousBin now) = some s ∧ s + 1200 < now := by
  unfold prevbucket
  change (match stamp store token (previousBin now) with
    | some s => decide (1200 < (now : Int) - s)
    | none => false) = true ↔ _
  cases stamp store token (previousBin now) with
  | none => simp
  | some s =>
    simp only [decide_eq_true_eq, Option.some.injEq, exists_eq_left']
    omega

/-- The token moves to the current bin. A bin that is left empty is removed, which no other token
can tell. -/
theorem stamp_moveToken : stamp (moveToken store token now) tok b =
    if tok = token then
      if b = currentBin now then some now
      else if b = previousBin now then none else stamp store tok b
    else stamp store tok b := by
  have hrest : ∀ (tokens : Finmap fun _ : Str => Nat) (b : Int),
      stamp (if tokens = ∅ then store.erase (previousBin now)
        else store.insert (previousBin now) tokens) tok b =
          if b = previousBin now then tokens.lookup tok else stamp store tok b := by
    intro tokens b
    split
    · rename_i hempty
      rw [stamp_erase, hempty, Finmap.lookup_empty]
    · exact stamp_insert ..
  have herase : (Finmap.erase token (bin store (previousBin now))).lookup tok =
      if tok = token then none else stamp store tok (previousBin now) := by
    by_cases htok : tok = token
    · subst htok
      rw [if_pos rfl, Finmap.lookup_erase]
    · rw [if_neg htok, Finmap.lookup_erase_ne htok, lookup_bin]
  unfold moveToken
  simp only [stamp_insert, lookup_insert_token, lookup_bin, hrest, herase]
  by_cases hb : b = currentBin now
  · subst hb
    rw [if_neg (previousBin_ne_currentBin now).symm]
    by_cases htok : tok = token
    · rw [if_pos rfl, if_pos htok, if_pos htok, if_pos rfl]
    · rw [if_pos rfl, if_neg htok, if_neg htok]
  · rw [if_neg hb, if_neg hb]
    by_cases hb' : b = previousBin now
    · rw [if_pos hb', if_pos hb', hb']
    · rw [if_neg hb', if_neg hb', ite_self]

/-- The answer of `check_auth`. -/
theorem checkAuth_eq_true_iff : (checkAuth store token now).1 = true ↔
    prevbucket store token now = true ∨ stamp store token (currentBin now) ≠ none := by
  unfold checkAuth
  cases hprev : prevbucket store token now with
  | true => simp
  | false =>
    simp only [Bool.false_eq_true, if_false, Bool.false_or, false_or, Bool.and_eq_true,
      decide_eq_true_eq]
    rw [mem_bin]
    constructor
    · exact fun h => h.2
    · intro h
      refine ⟨?_, h⟩
      rw [← Finmap.lookup_isSome, Option.isSome_iff_ne_none]
      intro hnone
      rw [stamp, hnone] at h
      exact h rfl

theorem stamp_checkAuth : stamp (checkAuth store token now).2 tok b =
    if tok = token ∧ prevbucket store token now = true then
      if b = currentBin now then some now
      else if b = previousBin now then none else stamp store tok b
    else stamp store tok b := by
  unfold checkAuth
  cases hprev : prevbucket store token now with
  | true =>
    simp only [if_true, stamp_moveToken]
    by_cases htok : tok = token <;> simp [htok]
  | false => simp

end Stamp

/-! ## Runs -/

/-- A call, with the clock reading it makes and the token that it draws or checks. -/
inductive Call where
  | createNewToken (ret : Str) (now : Nat)
  | checkAuth (token : Str) (now : Nat)
deriving DecidableEq, Repr

namespace Call

/-- The clock reading. -/
def now : Call → Nat
  | createNewToken _ now => now
  | checkAuth _ now => now

/-- The token drawn. -/
def created : Call → Option Str
  | createNewToken ret _ => some ret
  | checkAuth _ _ => none

/-- A call other than the check of another token. -/
def concerns (tok : Str) : Call → Bool
  | createNewToken _ _ => true
  | checkAuth token _ => token == tok

end Call

/-- The store in a run. The history variable `uses` has the time of each creation of a token and of
each check that accepted it. -/
structure Run where
  store : AuthdUuids := ∅
  uses : List (Str × Nat) := []

namespace Run

/-- The effect of a call. -/
def call (r : Run) : Call → Run
  | .createNewToken ret now =>
    { store := createNewToken r.store ret now, uses := (ret, now) :: r.uses }
  | .checkAuth token now =>
    let (answer, store) := checkAuth r.store token now
    { store, uses := if answer then (token, now) :: r.uses else r.uses }

/-- What the checks of a token answer. -/
def answers (tok : Str) : List Call → Run → List Bool
  | [], _ => []
  | c :: calls, r =>
    match c with
    | .createNewToken _ _ => answers tok calls (r.call c)
    | .checkAuth token now =>
      if token = tok then (checkAuth r.store token now).1 :: answers tok calls (r.call c)
      else answers tok calls (r.call c)

/-! ## The tokens are isolated -/

section Isolated

variable {r r' : Run} {tok : Str}

/-- A call has the same effect on the stamps of a token in every store that has the same ones. -/
theorem stamp_call_congr (h : stamp r.store tok = stamp r'.store tok) (c : Call) :
    stamp (r.call c).store tok = stamp (r'.call c).store tok := by
  funext b
  cases c with
  | createNewToken ret now =>
    show stamp (createNewToken r.store ret now) tok b = stamp (createNewToken r'.store ret now) tok b
    rw [stamp_createNewToken, stamp_createNewToken, h]
  | checkAuth token now =>
    show stamp (checkAuth r.store token now).2 tok b = stamp (checkAuth r'.store token now).2 tok b
    rw [stamp_checkAuth, stamp_checkAuth, h]
    by_cases htok : tok = token
    · subst htok
      have hprev : prevbucket r.store tok now = prevbucket r'.store tok now := by
        rw [Bool.eq_iff_iff, prevbucket_eq_true_iff, prevbucket_eq_true_iff, h]
      rw [hprev]
    · rw [if_neg fun h => htok h.1, if_neg fun h => htok h.1]

/-- The check of another token leaves the stamps alone. -/
theorem stamp_call_of_not_concerns {c : Call} (hc : c.concerns tok = false) :
    stamp (r.call c).store tok = stamp r.store tok := by
  funext b
  cases c with
  | createNewToken ret now => cases hc
  | checkAuth token now =>
    have htok : tok ≠ token := by
      rintro rfl
      simp [Call.concerns] at hc
    show stamp (checkAuth r.store token now).2 tok b = _
    rw [stamp_checkAuth, if_neg fun h => htok h.1]

theorem checkAuth_congr (h : stamp r.store tok = stamp r'.store tok) (now : Nat) :
    (checkAuth r.store tok now).1 = (checkAuth r'.store tok now).1 := by
  rw [Bool.eq_iff_iff, checkAuth_eq_true_iff, checkAuth_eq_true_iff, prevbucket_eq_true_iff,
    prevbucket_eq_true_iff, h]

/-- The checks of other tokens can be left out. -/
theorem answers_filter (calls : List Call) (h : stamp r.store tok = stamp r'.store tok) :
    answers tok calls r = answers tok (calls.filter (Call.concerns tok)) r' := by
  induction calls generalizing r r' with
  | nil => rfl
  | cons c calls ih =>
    by_cases hc : c.concerns tok = true
    · rw [List.filter_cons_of_pos hc]
      cases c with
      | createNewToken ret now => exact ih (stamp_call_congr h _)
      | checkAuth token now =>
        obtain rfl : token = tok := beq_iff_eq.mp hc
        simp only [answers, if_true]
        rw [checkAuth_congr h, ih (stamp_call_congr h _)]
    · rw [List.filter_cons_of_neg hc]
      have hstamp : stamp (r.call c).store tok = stamp r'.store tok :=
        (stamp_call_of_not_concerns (Bool.eq_false_iff.mpr hc)).trans h
      cases c with
      | createNewToken ret now => exact absurd rfl hc
      | checkAuth token now =>
        have htok : token ≠ tok := fun heq => hc (beq_iff_eq.mpr heq)
        simp only [answers, if_neg htok]
        exact ih hstamp

end Isolated

/-- A check that answers no changes nothing. -/
theorem checkAuth_of_false {store : AuthdUuids} {token : Str} {now : Nat}
    (h : (checkAuth store token now).1 = false) : (checkAuth store token now).2 = store := by
  unfold checkAuth at h ⊢
  cases hprev : prevbucket store token now with
  | true => simp [hprev] at h
  | false => rfl

/-! ## The invariant -/

/-- A token is in one bin, that of its stamp, and was not used in a later one. -/
structure Inv (r : Run) : Prop where
  oneBin : ∀ {tok b b'}, stamp r.store tok b ≠ none → stamp r.store tok b' ≠ none → b = b'
  stamped : ∀ {tok b s}, stamp r.store tok b = some s → (tok, s) ∈ r.uses ∧ currentBin s = b
  held : ∀ {tok t}, (tok, t) ∈ r.uses →
    ∃ b s, stamp r.store tok b = some s ∧ currentBin t ≤ b

/-- The token that a call draws is a new one. -/
def Fresh (r : Run) (c : Call) : Prop := ∀ ret, c.created = some ret → ∀ t, (ret, t) ∉ r.uses

/-- The clock does not go back. -/
def Later (r : Run) (c : Call) : Prop := ∀ u ∈ r.uses, u.2 ≤ c.now

theorem start_inv : Inv {} where
  oneBin h := absurd rfl h
  stamped h := by cases h
  held h := absurd h List.not_mem_nil

theorem Inv.create {r : Run} (h : r.Inv) {ret : Str} {now : Nat}
    (hnew : ∀ t, (ret, t) ∉ r.uses) : (r.call (.createNewToken ret now)).Inv := by
  -- a token without uses has no stamp in any bin
  have hnone : ∀ b, stamp r.store ret b = none := by
    intro b
    by_contra hb
    obtain ⟨s, hs⟩ := Option.ne_none_iff_exists'.mp hb
    exact hnew s (h.stamped hs).1
  -- the new token is in the current bin, and the others stay where they are
  have hstamp : ∀ tok b, stamp (r.call (.createNewToken ret now)).store tok b =
      if tok = ret then if b = currentBin now then some now else none else stamp r.store tok b := by
    intro tok b
    show stamp (createNewToken r.store ret now) tok b = _
    rw [stamp_createNewToken]
    by_cases htok : tok = ret
    · subst htok
      simp only [hnone, true_and, if_true, Option.getD_none]
    · rw [if_neg fun h => htok h.1, if_neg htok]
  refine ⟨fun {tok b b'} hb hb' => ?_, fun {tok b s} hs => ?_, fun {tok t} ht => ?_⟩
  · rw [hstamp] at hb hb'
    by_cases htok : tok = ret
    · rw [if_pos htok, ite_ne_right_iff] at hb hb'
      exact hb.1.trans hb'.1.symm
    · rw [if_neg htok] at hb hb'
      exact h.oneBin hb hb'
  · rw [hstamp] at hs
    by_cases htok : tok = ret
    · rw [if_pos htok, Option.ite_none_right_eq_some] at hs
      obtain ⟨rfl, hs⟩ := hs
      obtain rfl := Option.some.inj hs
      exact ⟨htok ▸ List.mem_cons_self, rfl⟩
    · rw [if_neg htok] at hs
      exact ⟨List.mem_cons_of_mem _ (h.stamped hs).1, (h.stamped hs).2⟩
  · rcases List.mem_cons.mp ht with heq | ht
    · obtain ⟨rfl, rfl⟩ := Prod.mk.inj heq
      exact ⟨currentBin t, t, by rw [hstamp, if_pos rfl, if_pos rfl], le_refl _⟩
    · have htok : tok ≠ ret := fun heq => hnew t (heq ▸ ht)
      obtain ⟨b, s, hs, hle⟩ := h.held ht
      exact ⟨b, s, by rw [hstamp, if_neg htok, hs], hle⟩

theorem call_checkAuth_of_true {r : Run} {token : Str} {now : Nat}
    (h : (checkAuth r.store token now).1 = true) : (r.call (.checkAuth token now)).uses =
      (token, now) :: r.uses := by
  simp only [call, h, if_true]

theorem call_checkAuth_of_false {r : Run} {token : Str} {now : Nat}
    (h : (checkAuth r.store token now).1 = false) : r.call (.checkAuth token now) = r := by
  simp only [call, h, checkAuth_of_false h, Bool.false_eq_true, if_false]

theorem Inv.check {r : Run} (h : r.Inv) (token : Str) (now : Nat) :
    (r.call (.checkAuth token now)).Inv := by
  cases hanswer : (checkAuth r.store token now).1 with
  | false =>
    rw [call_checkAuth_of_false hanswer]
    exact h
  | true =>
    have huses := call_checkAuth_of_true hanswer
    have hstore : (r.call (.checkAuth token now)).store = (checkAuth r.store token now).2 := rfl
    rcases checkAuth_eq_true_iff.mp hanswer with hprev | hcur
    · -- the token moves from the previous bin
      obtain ⟨s₀, hs₀, -⟩ := prevbucket_eq_true_iff.mp hprev
      have hstamp : ∀ tok b, stamp (r.call (.checkAuth token now)).store tok b =
          if tok = token then if b = currentBin now then some now else none
          else stamp r.store tok b := by
        intro tok b
        rw [hstore, stamp_checkAuth]
        by_cases htok : tok = token
        · subst htok
          rw [if_pos ⟨rfl, hprev⟩, if_pos rfl]
          by_cases hb : b = previousBin now
          · rw [if_pos hb]
          · rw [if_neg hb]
            have hnone : stamp r.store tok b = none := by
              by_contra hsome
              exact hb (h.oneBin hsome (hs₀ ▸ Option.some_ne_none _))
            rw [hnone]
        · rw [if_neg fun h => htok h.1, if_neg htok]
      refine ⟨fun {tok b b'} hb hb' => ?_, fun {tok b s} hs => ?_, fun {tok t} ht => ?_⟩
      · rw [hstamp] at hb hb'
        by_cases htok : tok = token
        · rw [if_pos htok, ite_ne_right_iff] at hb hb'
          exact hb.1.trans hb'.1.symm
        · rw [if_neg htok] at hb hb'
          exact h.oneBin hb hb'
      · rw [huses]
        rw [hstamp] at hs
        by_cases htok : tok = token
        · rw [if_pos htok, Option.ite_none_right_eq_some] at hs
          obtain ⟨rfl, hs⟩ := hs
          obtain rfl := Option.some.inj hs
          exact ⟨htok ▸ List.mem_cons_self, rfl⟩
        · rw [if_neg htok] at hs
          exact ⟨List.mem_cons_of_mem _ (h.stamped hs).1, (h.stamped hs).2⟩
      · rw [huses] at ht
        by_cases htok : tok = token
        · subst htok
          refine ⟨currentBin now, now, by rw [hstamp, if_pos rfl, if_pos rfl], ?_⟩
          rcases List.mem_cons.mp ht with heq | ht
          · obtain ⟨-, rfl⟩ := Prod.mk.inj heq
            exact le_refl _
          · -- earlier uses were in the previous bin or before
            obtain ⟨b, s, hs, hle⟩ := h.held ht
            obtain rfl := h.oneBin (hs ▸ Option.some_ne_none _) (hs₀ ▸ Option.some_ne_none _)
            unfold previousBin currentBin at *
            omega
        · have ht : (tok, t) ∈ r.uses :=
            (List.mem_cons.mp ht).resolve_left fun heq => htok (Prod.mk.inj heq).1
          obtain ⟨b, s, hs, hle⟩ := h.held ht
          exact ⟨b, s, by rw [hstamp, if_neg htok, hs], hle⟩
    · -- the token stays in the current bin
      obtain ⟨s₀, hs₀⟩ := Option.ne_none_iff_exists'.mp hcur
      have hprev : ¬ prevbucket r.store token now = true := by
        intro hprev
        obtain ⟨s, hs, -⟩ := prevbucket_eq_true_iff.mp hprev
        exact previousBin_ne_currentBin now (h.oneBin (hs ▸ Option.some_ne_none _) hcur)
      have hstamp : ∀ tok, stamp (r.call (.checkAuth token now)).store tok = stamp r.store tok := by
        intro tok
        funext b
        rw [hstore, stamp_checkAuth, if_neg fun h => hprev h.2]
      refine ⟨fun {tok b b'} hb hb' => ?_, fun {tok b s} hs => ?_, fun {tok t} ht => ?_⟩
      · rw [hstamp] at hb hb'
        exact h.oneBin hb hb'
      · rw [hstamp] at hs
        rw [huses]
        exact ⟨List.mem_cons_of_mem _ (h.stamped hs).1, (h.stamped hs).2⟩
      · rw [huses] at ht
        rw [hstamp]
        rcases List.mem_cons.mp ht with heq | ht
        · obtain ⟨rfl, rfl⟩ := Prod.mk.inj heq
          exact ⟨currentBin t, s₀, hs₀, le_refl _⟩
        · exact h.held ht

theorem Inv.call {r : Run} (h : r.Inv) {c : Call} (hc : r.Fresh c) : (r.call c).Inv := by
  cases c with
  | createNewToken ret now => exact h.create (hc ret rfl)
  | checkAuth token now => exact h.check token now

/-- A use that a call adds is that of the token it draws, or of one used before. -/
theorem mem_uses_call {r : Run} (h : r.Inv) {c : Call} {u : Str × Nat}
    (hu : u ∈ (r.call c).uses) :
    u ∈ r.uses ∨ (u.2 = c.now ∧ (c.created = some u.1 ∨ ∃ t, (u.1, t) ∈ r.uses)) := by
  cases c with
  | createNewToken ret now =>
    rcases List.mem_cons.mp hu with rfl | hu
    · exact Or.inr ⟨rfl, Or.inl rfl⟩
    · exact Or.inl hu
  | checkAuth token now =>
    cases hanswer : (checkAuth r.store token now).1 with
    | false =>
      rw [call_checkAuth_of_false hanswer] at hu
      exact Or.inl hu
    | true =>
      rw [call_checkAuth_of_true hanswer] at hu
      rcases List.mem_cons.mp hu with rfl | hu
      · refine Or.inr ⟨rfl, Or.inr ?_⟩
        rcases checkAuth_eq_true_iff.mp hanswer with hprev | hcur
        · obtain ⟨s, hs, -⟩ := prevbucket_eq_true_iff.mp hprev
          exact ⟨s, (h.stamped hs).1⟩
        · obtain ⟨s, hs⟩ := Option.ne_none_iff_exists'.mp hcur
          exact ⟨s, (h.stamped hs).1⟩
      · exact Or.inl hu

/-- Tokens that are drawn once are new when they are drawn. -/
theorem throughout_fresh {calls : List Call} {r : Run} (h : r.Inv)
    (hnodup : (calls.filterMap Call.created).Nodup)
    (hnew : ∀ ret ∈ calls.filterMap Call.created, ∀ t, (ret, t) ∉ r.uses) :
    Throughout call Fresh calls r := by
  induction calls generalizing r with
  | nil => trivial
  | cons c calls ih =>
    have hfresh : r.Fresh c := fun ret hret => hnew ret (by
      rw [List.filterMap_cons_some hret]
      exact List.mem_cons_self)
    refine ⟨hfresh, ih (h.call hfresh) ?_ fun ret hret t ht => ?_⟩
    · exact hnodup.sublist ((List.sublist_cons_self c calls).filterMap _)
    · have hmem : ret ∈ (c :: calls).filterMap Call.created :=
        ((List.sublist_cons_self c calls).filterMap _).subset hret
      rcases mem_uses_call h ht with hold | ⟨-, hcreated | ⟨t', hold⟩⟩
      · exact hnew ret hmem t hold
      · rw [List.filterMap_cons_some hcreated, List.nodup_cons] at hnodup
        exact hnodup.1 hret
      · exact hnew ret hmem t' hold

/-- Readings in order come after the uses before them. -/
theorem throughout_later {calls : List Call} {r : Run} (h : r.Inv)
    (hfresh : Throughout call Fresh calls r) (hclock : (calls.map Call.now).Pairwise (· ≤ ·))
    (hlater : ∀ c ∈ calls, r.Later c) : Throughout call Later calls r := by
  induction calls generalizing r with
  | nil => trivial
  | cons c calls ih =>
    rw [List.map_cons, List.pairwise_cons] at hclock
    refine ⟨hlater c List.mem_cons_self,
      ih (h.call hfresh.1) hfresh.2 hclock.2 fun c' hc' u hu => ?_⟩
    rcases mem_uses_call h hu with hold | ⟨hnow, -⟩
    · exact hlater c' (List.mem_cons_of_mem _ hc') u hold
    · rw [hnow]
      exact hclock.1 _ (List.mem_map_of_mem hc')

/-- Checks of a token are answered the same whatever other tokens are checked, a check that answers
no leaves the store as it is, and no token is in two bins. -/
theorem tokens_isolated :
    (∀ (tok : Str) (calls calls' : List Call),
      calls.filter (Call.concerns tok) = calls'.filter (Call.concerns tok) →
        answers tok calls {} = answers tok calls' {}) ∧
    (∀ (store : AuthdUuids) (token : Str) (now : Nat), (checkAuth store token now).1 = false →
      (checkAuth store token now).2 = store) ∧
    ∀ calls : List Call, (calls.filterMap Call.created).Nodup → ∀ (tok : Str) (b b' : Int),
      tok ∈ bin (calls.foldl call {}).store b → tok ∈ bin (calls.foldl call {}).store b' →
        b = b' := by
  refine ⟨fun tok calls calls' h => ?_, fun _ _ _ => checkAuth_of_false, ?_⟩
  · rw [answers_filter calls rfl, h, ← answers_filter calls' rfl]
  · intro calls hnodup tok b b' hb hb'
    have hfresh : Throughout call Fresh calls {} :=
      throughout_fresh start_inv hnodup fun _ _ _ => List.not_mem_nil
    have hinv : (calls.foldl call {}).Inv := hfresh.foldl start_inv fun _ _ h hc => h.call hc
    exact hinv.oneBin (mem_bin.mp hb) (mem_bin.mp hb')

/-- Two tokens: the checks of the second do not matter to the first, the check of an unknown token
changes nothing, and after a move each token is in one bin. -/
theorem twoTokens_isolated :
    answers ['a'] [.createNewToken ['a'] 0, .createNewToken ['b'] 0, .checkAuth ['b'] 1300,
      .checkAuth ['a'] 1400] {} =
        answers ['a'] [.createNewToken ['a'] 0, .createNewToken ['b'] 0, .checkAuth ['a'] 1400] {} ∧
    (checkAuth ∅ ['a'] 5).2 = ∅ ∧
    ∀ b b' : Int, ['b'] ∈ bin ([.createNewToken ['a'] 0, .createNewToken ['b'] 0,
      .checkAuth ['b'] 1300].foldl call {}).store b → ['b'] ∈ bin ([.createNewToken ['a'] 0,
        .createNewToken ['b'] 0, .checkAuth ['b'] 1300].foldl call {}).store b' → b = b' :=
  ⟨tokens_isolated.1 ['a'] _ _ (by decide), tokens_isolated.2.1 ∅ ['a'] 5 (by decide +kernel),
    tokens_isolated.2.2 _ (by decide) ['b']⟩

/-! ## The window of 1200 seconds -/

/-- A check answers whether the token was created or accepted in the last 1200 seconds. -/
def AnswersInWindow (r : Run) : Call → Prop
  | .createNewToken _ _ => True
  | .checkAuth token now => (checkAuth r.store token now).1 = true ↔
      ∃ t, (token, t) ∈ r.uses ∧ now ≤ t + 1200

/-- A token that is checked in the bin after its own entered that bin more than 1200 seconds before,
and was used in it again in the last 1200 seconds. -/
def RenewedInBin (r : Run) : Call → Prop
  | .createNewToken _ _ => True
  | .checkAuth token now => ∀ s, stamp r.store token (previousBin now) = some s →
      s + 1200 < now ∧ ∃ t, (token, t) ∈ r.uses ∧ now ≤ t + 1200

theorem answersInWindow_iff_renewedInBin {r : Run} (h : r.Inv) {c : Call} (hc : r.Later c) :
    r.AnswersInWindow c ↔ r.RenewedInBin c := by
  cases c with
  | createNewToken ret now => exact Iff.rfl
  | checkAuth token now =>
    simp only [AnswersInWindow, RenewedInBin]
    rw [checkAuth_eq_true_iff, prevbucket_eq_true_iff]
    cases hprev : stamp r.store token (previousBin now) with
    | some s =>
      have hcur : stamp r.store token (currentBin now) = none := by
        by_contra hcur
        exact previousBin_ne_currentBin now (h.oneBin (hprev ▸ Option.some_ne_none _) hcur)
      have hs : (token, s) ∈ r.uses := (h.stamped hprev).1
      simp only [hcur, Option.some.injEq, exists_eq_left', ne_eq, not_true_eq_false, or_false,
        forall_eq']
      constructor
      · intro hiff
        by_cases hlt : s + 1200 < now
        · exact ⟨hlt, hiff.mp hlt⟩
        · exact absurd (hiff.mpr ⟨s, hs, by omega⟩) hlt
      · exact fun hboth => ⟨fun _ => hboth.2, fun _ => hboth.1⟩
    | none =>
      simp only [reduceCtorEq, false_and, exists_false, false_or, false_imp_iff, implies_true,
        iff_true]
      constructor
      · intro hcur
        -- a token of the current bin was used in it
        obtain ⟨s, hs⟩ := Option.ne_none_iff_exists'.mp hcur
        obtain ⟨huse, hbin⟩ := h.stamped hs
        refine ⟨s, huse, ?_⟩
        unfold currentBin at hbin
        omega
      · rintro ⟨t, huse, hle⟩ hcur
        -- a token of an earlier bin was not used since
        obtain ⟨b, s, hs, hb⟩ := h.held huse
        obtain ⟨hs', hbin⟩ := h.stamped hs
        have hsnow : s ≤ now := hc _ hs'
        have hne : b ≠ previousBin now := by
          rintro rfl
          rw [hprev] at hs
          cases hs
        have hne' : b ≠ currentBin now := by
          rintro rfl
          rw [hcur] at hs
          cases hs
        unfold currentBin at *
        unfold previousBin at hne
        omega

/-- In a run with a clock that does not go back and tokens that are drawn once, the checks answer
whether the token was used in the last 1200 seconds, if and only if every token that is checked in
the bin after its own was renewed there as `RenewedInBin` says. -/
theorem answersInWindow_iff (calls : List Call) (hclock : (calls.map Call.now).Pairwise (· ≤ ·))
    (hnodup : (calls.filterMap Call.created).Nodup) :
    Throughout call AnswersInWindow calls {} ↔ Throughout call RenewedInBin calls {} := by
  have hfresh : Throughout call Fresh calls {} :=
    throughout_fresh start_inv hnodup fun _ _ _ => List.not_mem_nil
  have hlater : Throughout call Later calls {} :=
    throughout_later start_inv hfresh hclock fun _ _ _ hu => absurd hu List.not_mem_nil
  exact throughout_congr start_inv (hfresh.and hlater) (fun _ _ h hc => h.call hc.1)
    fun _ _ h hc => answersInWindow_iff_renewedInBin h hc.2

/-- Twenty seconds after its creation a token is refused, if a new bin began in between. -/
theorem earlyCheck_refused : ¬ ∀ calls : List Call, (calls.map Call.now).Pairwise (· ≤ ·) →
    (calls.filterMap Call.created).Nodup → Throughout call AnswersInWindow calls {} := by
  intro h
  have hcheck := (h [.createNewToken ['t'] 1190, .checkAuth ['t'] 1210] (by decide) (by decide)).2.1
  have hanswer := hcheck.mpr ⟨1190, List.mem_cons_self, by decide⟩
  exact absurd hanswer (by decide +kernel)

/-- A token that is used at the end of its bin is still accepted in the next. -/
theorem renewed_answersInWindow : Throughout call AnswersInWindow
    [.createNewToken ['t'] 0, .checkAuth ['t'] 1190, .checkAuth ['t'] 2000] {} := by
  refine (answersInWindow_iff _ (by decide) (by decide)).mpr ⟨trivial, fun s hs => ?_,
    fun s hs => ⟨?_, 1190, ?_, by decide⟩, trivial⟩
  · have hnone : stamp (call {} (.createNewToken ['t'] 0)).store ['t'] (previousBin 1190) = none := by
      decide +kernel
    cases hnone.symm.trans hs
  · obtain rfl : s = 0 := by
      have hzero : stamp (call (call {} (.createNewToken ['t'] 0)) (.checkAuth ['t'] 1190)).store
          ['t'] (previousBin 2000) = some 0 := by decide +kernel
      exact Option.some.inj (hs.symm.trans hzero)
    decide
  · decide +kernel

end Run

end LocalSoftware.ReverseProxy
