import Mathlib.Order.WellFounded

/-! # Readers of tokens and the forms they take

A reader consumes tokens from the front of a list and may change a state.  A form says which
tokens it can take from the front of a list and what it leaves.  Each way of building a
reader has a rule that says which form the reader takes, given the forms of its parts.
-/

namespace HoloSphere.Program
open Nat
variable {τ σ ε α β ι : Type}

abbrev Reader (τ σ ε α : Type) := StateT (List τ × σ) (Except ε) α

/-- From the tokens before the form to those after it. -/
abbrev Form (τ : Type) := List τ → List τ → Prop

namespace Reader

def next (tells : τ → Option α) : List τ → Option (α × List τ)
  | [] => none
  | token :: rest => (tells token).map fun val => (val, rest)

/-- The tokens after the next one, if it says something. -/
def after (tells : τ → Option α) (toks : List τ) : Option (List τ) := (next tells toks).map Prod.snd

/-- The next token is consumed; at the end there is none. -/
def advance (read : Option τ → Except ε α) : Reader τ σ ε α := fun input =>
  (read input.1.head?).map fun val => (val, input.1.tail, input.2)

def fail (e : ε) : Reader τ σ ε α := fun _ => .error e

/-- The next token is consumed if it says something. -/
def whenNext (tells : τ → Option α) (yes : α → Reader τ σ ε β) (no : Reader τ σ ε β) :
    Reader τ σ ε β := fun input =>
  match next tells input.1 with
  | some (val, rest) => yes val (rest, input.2)
  | none => no input

def ofResult (res : Except ε α) : Reader τ σ ε α := fun input =>
  res.map fun val => (val, input)

def onState (f : σ → α × σ) : Reader τ σ ε α := fun input =>
  .ok ((f input.2).1, input.1, (f input.2).2)

/-- A turn begins if `enter` finds something, and is the last one if `goOn` does not find
    anything.  A turn that left as many tokens as it found would be repeated forever; here it
    is an error. -/
def loop [Inhabited ε] (enter : List τ → Option (ι × List τ)) (step : ι → α → Reader τ σ ε α)
    (goOn : List τ → Option (List τ)) (val : α) (input : List τ × σ) :
    Except ε (α × List τ × σ) :=
  match enter input.1 with
  | none => .ok (val, input)
  | some (entered, hin) =>
    match step entered val (hin, input.2) with
    | .error e => .error e
    | .ok (val, toks, st) =>
      match goOn toks with
      | none => .ok (val, toks, st)
      | some rest =>
        if _shorter : rest.length < input.1.length then
          loop enter step goOn val (rest, st)
        else .error default
termination_by input.1.length

/-- A reader that calls itself.  A call that has read nothing would not end; here it is an
    error. -/
def recurse [Inhabited ε] (body : Reader τ σ ε α → Reader τ σ ε α) (input : List τ × σ) :
    Except ε (α × List τ × σ) :=
  body (fun rest =>
    if _shorter : rest.1.length < input.1.length then recurse body rest else .error default) input
termination_by input.1.length

@[simp] theorem next_nil (tells : τ → Option α) : next tells [] = none := rfl

@[simp] theorem next_cons (tells : τ → Option α) :
    next tells (token :: rest) = (tells token).map fun val => (val, rest) := rfl

theorem next_some (found : next tells toks = some (val, rest)) :
    ∃ token, toks = token :: rest ∧ tells token = some val := by
  cases toks with
  | nil => cases found
  | cons token others =>
    rw [next_cons, Option.map_eq_some_iff] at found
    obtain ⟨_, said, same⟩ := found
    cases same
    exact ⟨token, rfl, said⟩

theorem bind_apply (snd : α → Reader τ σ ε β) :
    (fst >>= snd) input = fst input >>= fun mid => snd mid.1 mid.2 := rfl

theorem pure_apply (val : α) : (pure val : Reader τ σ ε α) input = .ok (val, input) := rfl

theorem map_apply (f : α → β) (fst : Reader τ σ ε α) :
    (f <$> fst) input = fst input >>= fun mid => .ok (f mid.1, mid.2) := rfl

@[simp] theorem ok_bind (mid : α) (snd : α → Except ε β) :
    ((.ok mid : Except ε α) >>= snd) = snd mid := rfl

@[simp] theorem error_bind (snd : α → Except ε β) :
    ((.error e : Except ε α) >>= snd) = .error e := rfl

theorem bind_eq_ok {fst : Except ε α} {snd : α → Except ε β} {val : β} :
    (fst >>= snd) = .ok val ↔ ∃ mid, fst = .ok mid ∧ snd mid = .ok val := by
  cases fst with
  | error | ok => simp

theorem bind_ok {fst : Reader τ σ ε α} {snd : α → Reader τ σ ε β} : (fst >>= snd) input = .ok out ↔
      ∃ mid, fst input = .ok mid ∧ snd mid.1 mid.2 = .ok out := bind_eq_ok

theorem map_eq_ok {fst : Except ε α} :
    fst.map f = .ok val ↔ ∃ mid, fst = .ok mid ∧ f mid = val := by
  cases fst <;> simp [Except.map]

theorem advance_ok {read : Option τ → Except ε β} :
    (advance read : Reader τ σ ε β) input = .ok out ↔
      ∃ val, read input.1.head? = .ok val ∧ (val, input.1.tail, input.2) = out := map_eq_ok

theorem loop_ok [Inhabited ε] {enter : List τ → Option (ι × List τ)}
    {step : ι → β → Reader τ σ ε β} {goOn : List τ → Option (List τ)} {val : β} :
    loop enter step goOn val input = .ok out ↔ match enter input.1 with
      | none => (val, input) = out
      | some (entered, hin) => ∃ mid, step entered val (hin, input.2) = .ok mid ∧
          match goOn mid.2.1 with
          | none => mid = out
          | some rest => rest.length < input.1.length ∧
              loop enter step goOn mid.1 (rest, mid.2.2) = .ok out := by
  rw [loop]
  cases enter input.1 with
  | none => simp
  | some found =>
    obtain ⟨entered, hin⟩ := found
    simp only
    cases step entered val (hin, input.2) with
    | error e => simp
    | ok mid =>
      obtain ⟨val, toks, st⟩ := mid
      simp only [Except.ok.injEq, exists_eq_left']
      cases goOn toks with
      | none => simp
      | some rest => by_cases shorter : rest.length < input.1.length <;> simp [shorter]

def token (fits : τ → Prop) : Form τ := fun toks rest => ∃ token, fits token ∧ toks = token :: rest

def given (holds : Prop) : Form τ := fun toks rest => holds ∧ toks = rest

/-- The one form if the next token says something, the other one if it does not. -/
def branch (tells : τ → Option α) (yes : α → Form τ) (no : Form τ) : Form τ := fun toks rest =>
  match next tells toks with
  | some (val, hin) => yes val hin rest
  | none => no toks rest

def series (forms : List (Form τ)) : Form τ := forms.foldr Relation.Comp Eq

/-- Turns that go on, up to one that does not begin or does not go on. -/
inductive Turns (enter : List τ → Option (ι × List τ)) (step : ι → Form τ)
    (goOn : List τ → Option (List τ)) : Form τ where
  | out {toks : List τ} (out : enter toks = none) : Turns enter step goOn toks toks
  | last {toks hin rest : List τ} {entered : ι} (enters : enter toks = some (entered, hin))
      (steps : step entered hin rest) (stops : goOn rest = none) :
      Turns enter step goOn toks rest
  | more {toks hin after others rest : List τ} {entered : ι}
      (enters : enter toks = some (entered, hin)) (steps : step entered hin after)
      (goes : goOn after = some others) (later : Turns enter step goOn others rest) :
      Turns enter step goOn toks rest

/-- A loop that always goes on ends where no turn begins. -/
theorem Turns.out_at (turns : Turns enter step some toks rest) : enter rest = none := by
  induction turns with
  | out out => exact out
  | last _ _ stops => cases stops
  | more _ _ _ _ ih => exact ih

def nested (body : Form τ → Form τ) : Nat → Form τ
  | 0 => fun _ _ => False
  | depth + 1 => body (nested body depth)

/-- A text is never nested deeper than it is long. -/
def nesting (body : Form τ → Form τ) : Form τ := fun toks rest =>
  nested body (toks.length + 1) toks rest

/-- On texts below the bound the reader succeeds just where the form fits, and what it leaves
    is no longer than what it found. -/
structure Takes (bound : Nat) (reader : Reader τ σ ε α) (form : Form τ) : Prop where
  iff : ∀ {toks : List τ} (st : σ) {rest : List τ}, toks.length < bound →
    ((∃ val state', reader (toks, st) = .ok (val, rest, state')) ↔ form toks rest)
  short : ∀ {toks : List τ} {st : σ} {out : α × List τ × σ}, toks.length < bound →
    reader (toks, st) = .ok out → out.2.1.length ≤ toks.length

theorem takes_pure : Takes bound (pure val : Reader τ σ ε α) Eq where
  iff _ _ := by simp [pure_apply]
  short _ done := by
    cases done
    exact le_refl _

theorem takes_onState (f : σ → α × σ) : Takes bound (onState f : Reader τ σ ε α) Eq where
  iff _ _ := by simp [onState]
  short _ done := by
    cases done
    exact le_refl _

theorem takes_ofResult {holds : Prop} (reads : (∃ val, res = .ok val) ↔ holds) :
    Takes bound (ofResult res : Reader τ σ ε α) (given holds) where
  iff _ _ := by
    rw [given, ← reads, ofResult]
    cases res <;> simp [Except.map]
  short _ done := by
    cases res <;> cases done
    exact le_refl _

/-- Any token is consumed, and none at the end. -/
theorem takes_any (f : Option τ → α) :
    Takes bound (advance fun next => .ok (f next) : Reader τ σ ε α)
      fun toks rest => rest = toks.tail where
  iff _ _ := by simp [advance_ok, @eq_comm _ (List.tail _)]
  short _ := by
    rintro ⟨_, -, rfl⟩
    simp

theorem takes_fail (e : ε) : Takes bound (fail e : Reader τ σ ε α) fun _ _ => False where
  iff _ _ := by simp [fail]
  short _ := by simp [fail]

theorem takes_advance {read : Option τ → Except ε α} {fits : τ → Prop}
    (ends : ∀ val, read none ≠ .ok val)
    (reads : ∀ token, (∃ val, read (some token) = .ok val) ↔ fits token) :
    Takes bound (advance read : Reader τ σ ε α) (token fits) where
  iff {toks} _ {rest} _ := by
    cases toks with
    | nil => simp [advance_ok, token, ends]
    | cons head tail =>
      simp only [advance_ok, List.head?_cons, List.tail_cons, Prod.mk.injEq, token, ← reads,
        List.cons.injEq]
      grind
  short {toks st out} _ := by
    rw [advance_ok]
    rintro ⟨_, -, rfl⟩
    simp

theorem takes_bind (left : Takes bound fst form) (right : ∀ val, Takes bound (snd val) form') :
    Takes bound (fst >>= snd) (Relation.Comp form form') where
  iff {toks} st {rest} below := by
    simp only [bind_ok, Relation.Comp]
    constructor
    · rintro ⟨val, state', ⟨mid, tokens', state₁⟩, began, ended⟩
      have below' := lt_of_le_of_lt (left.short below began) below
      exact ⟨tokens', (left.iff st below).mp ⟨_, _, began⟩,
        ((right mid).iff state₁ below').mp ⟨_, _, ended⟩⟩
    · rintro ⟨tokens', taken, after⟩
      obtain ⟨mid, state₁, began⟩ := (left.iff st below).mpr taken
      have below' := lt_of_le_of_lt (left.short below began) below
      obtain ⟨val, state', ended⟩ := ((right mid).iff state₁ below').mpr after
      exact ⟨val, state', _, began, ended⟩
  short {toks st out} below := by
    rw [bind_ok]
    rintro ⟨mid, began, ended⟩
    have fst := left.short below began
    exact le_trans ((right mid.1).short (lt_of_le_of_lt fst below) ended) fst

theorem Takes.bind_shorter {fst : Reader τ σ ε α} {snd : α → Reader τ σ ε β}
    {fits : τ → Prop} {form : Form τ} (left : Takes bound fst (token fits))
    (right : ∀ val, Takes bound (snd val) form) {toks : List τ} {st : σ}
    {out : β × List τ × σ} (below : toks.length < bound)
    (done : (fst >>= snd) (toks, st) = .ok out) : out.2.1.length < toks.length := by
  rw [bind_ok] at done
  obtain ⟨⟨val, rest, state'⟩, began, ended⟩ := done
  obtain ⟨token, -, rfl⟩ := (left.iff st below).mp ⟨_, _, began⟩
  rw [List.length_cons] at below ⊢
  exact lt_succ_of_le ((right val).short (by omega) ended)

/-- The bound is one smaller after a token. -/
theorem takes_whenNext (left : ∀ val, Takes (bound - 1) (yes val) (form val))
    (right : Takes bound no form') :
    Takes bound (whenNext tells yes no) (branch tells form form') where
  iff {toks} st {rest} below := by
    simp only [whenNext, branch]
    cases found : next tells toks with
    | none => exact right.iff st below
    | some pair =>
      obtain ⟨token, rfl, -⟩ := next_some found
      rw [List.length_cons] at below
      exact (left pair.1).iff st (by omega)
  short {toks st out} below := by
    simp only [whenNext]
    cases found : next tells toks with
    | none => exact right.short below
    | some pair =>
      obtain ⟨token, rfl, -⟩ := next_some found
      rw [List.length_cons] at below ⊢
      intro done
      exact le_succ_of_le ((left pair.1).short (by omega) done)

theorem Takes.mono (takes : Takes bound reader form) (le : least ≤ bound) :
    Takes least reader form :=
  ⟨fun st _ below => takes.iff st (by omega), fun below => takes.short (by omega)⟩

section
variable [Inhabited ε] {step : ι → α → Reader τ σ ε α}

theorem loop_turns (entering : ∀ {toks entered hin}, enter toks = some (entered, hin) →
      hin.length ≤ toks.length)
    (steps : ∀ entered val, Takes bound (step entered val) (form entered))
    (below : toks.length < bound) (done : loop enter step goOn val (toks, st) = .ok out) :
    Turns enter form goOn toks out.2.1 ∧ out.2.1.length ≤ toks.length := by
  induction size : toks.length using Nat.strong_induction_on generalizing toks st val with
  | _ size ih =>
    rw [loop_ok] at done
    cases enters : enter toks with
    | none =>
      simp only [enters] at done
      cases done
      exact ⟨.out enters, size.le⟩
    | some pair =>
      simp only [enters] at done
      obtain ⟨mid, stepped, done⟩ := done
      have inner := entering enters
      have taken := ((steps pair.1 val).iff st (by omega)).mp ⟨_, _, stepped⟩
      have short := (steps pair.1 val).short (by omega) stepped
      cases goes : goOn mid.2.1 with
      | none =>
        simp only [goes] at done
        cases done
        exact ⟨.last enters taken goes, by omega⟩
      | some others =>
        simp only [goes] at done
        obtain ⟨later, le⟩ := ih _ (by omega) (by omega) done.2 rfl
        exact ⟨.more enters taken goes later, by omega⟩

/-- Every turn has to read something before the loop goes on. -/
theorem takes_loop (entering : ∀ {toks entered hin}, enter toks = some (entered, hin) →
      hin.length ≤ toks.length)
    (reads : ∀ {toks entered hin val st out rest}, toks.length < bound →
      enter toks = some (entered, hin) → step entered val (hin, st) = .ok out →
      goOn out.2.1 = some rest → rest.length < toks.length)
    (steps : ∀ entered val, Takes bound (step entered val) (form entered))
    (val : α) : Takes bound (loop enter step goOn val) (Turns enter form goOn) where
  iff {toks} st {rest} below := by
    constructor
    · rintro ⟨res, state', done⟩
      exact (loop_turns entering steps below done).1
    · intro taken
      induction taken generalizing st val with
      | out out => exact ⟨val, st, loop_ok.mpr (by simp [out])⟩
      | last enters stepped stops =>
        have inner := entering enters
        obtain ⟨value', state', done⟩ := ((steps _ val).iff st (by omega)).mpr stepped
        exact ⟨value', state', loop_ok.mpr (by simp [enters, done, stops])⟩
      | more enters stepped goes later ih =>
        have inner := entering enters
        obtain ⟨value', state₁, done⟩ := ((steps _ val).iff st (by omega)).mpr stepped
        have shorter := reads below enters done goes
        obtain ⟨res, state', rest⟩ := ih value' state₁ (by omega)
        exact ⟨res, state', loop_ok.mpr (by simp [enters, done, goes, shorter, rest])⟩
  short below done := (loop_turns entering steps below done).2

theorem takes_while (steps : ∀ entered val, Takes bound (step entered val) (form entered))
    (val : α) :
    Takes bound (loop (next tells) step some val) (Turns (next tells) form some) := by
  refine takes_loop ?_ ?_ steps val
  · intro toks entered hin enters
    obtain ⟨token, rfl, -⟩ := next_some enters
    simp
  · intro toks entered hin val st out rest below enters stepped goes
    obtain ⟨token, rfl, -⟩ := next_some enters
    rw [List.length_cons] at below ⊢
    have short := (steps entered val).short (by omega) stepped
    cases goes
    omega

theorem takes_separated (entering : ∀ {toks entered hin}, enter toks = some (entered, hin) →
      hin.length ≤ toks.length)
    (steps : ∀ entered val, Takes bound (step entered val) (form entered)) :
    Takes bound (loop enter step (after tells) val) (Turns enter form (after tells)) := by
  refine takes_loop entering ?_ steps val
  intro toks entered hin val st out rest below enters stepped goes
  have inner := entering enters
  have short := (steps entered val).short (by omega) stepped
  rw [after, Option.map_eq_some_iff] at goes
  obtain ⟨⟨_, _⟩, found, rfl⟩ := goes
  obtain ⟨token, same, -⟩ := next_some found
  rw [same, List.length_cons] at short
  simp only
  omega

end

/-- Calls of itself come after a token was read. -/
theorem takes_recurse [Inhabited ε] {body : Reader τ σ ε α → Reader τ σ ε α}
    {forms : Form τ → Form τ}
    (bodies : ∀ {least reader form}, least < bound → Takes least reader form →
      Takes (least + 1) (body reader) (forms form)) :
    Takes bound (recurse body) (nesting forms) := by
  have levels : ∀ depth, depth ≤ bound → Takes depth (recurse body) (nested forms depth) := by
    intro depth le
    induction depth with
    | zero => exact ⟨fun _ _ below => absurd below (not_lt_zero _),
        fun below => absurd below (not_lt_zero _)⟩
    | succ depth ih =>
      have inner : ∀ toks : List τ, toks.length < depth + 1 → Takes (toks.length + 1)
          (body fun rest => if rest.1.length < toks.length then recurse body rest
            else .error default) (nested forms (depth + 1)) := by
        intro toks below
        refine bodies (by omega) ⟨fun {hin} st {rest} below' => ?_, fun {hin st out} below' => ?_⟩
        · simp only [if_pos below']
          exact (ih (by omega)).iff st (by omega)
        · simp only [if_pos below']
          exact (ih (by omega)).short (by omega)
      constructor
      · intro toks st rest below
        rw [← (inner toks below).iff st (lt_succ_self _), recurse]
        rfl
      · intro toks st out below done
        rw [recurse] at done
        exact (inner toks below).short (lt_succ_self _) done
  constructor
  · intro toks st rest below
    exact (levels (toks.length + 1) below).iff st (lt_succ_self _)
  · intro toks st out below done
    exact (levels (toks.length + 1) below).short (lt_succ_self _) done

end Reader
end HoloSphere.Program
