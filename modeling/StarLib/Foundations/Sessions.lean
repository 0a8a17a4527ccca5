/-! # Sessions of calls

A call can answer, go wrong, or not be over after some turns. A caller makes one call after the other. Where every call
answers as a model does, and keeps what relates the state to that of the model, so does every session.
-/

namespace Foundations
set_option autoImplicit false
set_option maxHeartbeats 250000
set_option maxRecDepth 120000

/-- What comes of a call that is given some turns. -/
inductive Outcome (α : Type)
  | fault
  | running
  | done (a : α)

namespace Outcome

variable {α β : Type}

def bind (o : Outcome α) (f : α → Outcome β) : Outcome β :=
  match o with
  | fault => fault
  | running => running
  | done a => f a

def map (f : α → β) (o : Outcome α) : Outcome β := o.bind fun a => done (f a)

@[simp] theorem bind_done (a : α) (f : α → Outcome β) : (done a).bind f = f a := rfl

@[simp] theorem map_done (f : α → β) (a : α) : (done a).map f = done (f a) := rfl

theorem bind_eq_done {o : Outcome α} {f : α → Outcome β} {b : β} (h : o.bind f = done b) :
    ∃ a, o = done a ∧ f a = done b := by
  cases o with
  | fault => exact absurd h (by simp [bind])
  | running => exact absurd h (by simp [bind])
  | done a => exact ⟨a, rfl, h⟩

theorem map_eq_done {o : Outcome α} {f : α → β} {b : β} (h : o.map f = done b) : ∃ a, o = done a ∧ f a = b := by
  obtain ⟨a, ho, hfa⟩ := bind_eq_done h
  exact ⟨a, ho, Outcome.done.inj hfa⟩

end Outcome

variable {σ τ ι β : Type}

def session (call : σ → ι → Outcome (β × σ)) : σ → List ι → Outcome (List β)
  | _, [] => .done []
  | s, c :: calls => (call s c).bind fun r => (session call r.2 calls).map (r.1 :: ·)

/-- The answers of the model. -/
def modelled (call : τ → ι → β × τ) : τ → List ι → List β
  | _, [] => []
  | t, c :: calls => (call t c).1 :: modelled call (call t c).2 calls

/-- Sessions of calls that are allowed answer as the model does. -/
theorem session_refines {call : σ → ι → Outcome (β × σ)} {model : τ → ι → β × τ} {rel : σ → τ → Prop} {ok : ι → Prop}
    (hcall : ∀ s t c, rel s t → ok c → ∃ s', call s c = .done ((model t c).1, s') ∧ rel s' (model t c).2) {s : σ} {t : τ}
    {calls : List ι} (h : rel s t) (hok : ∀ c ∈ calls, ok c) : session call s calls = .done (modelled model t calls) := by
  induction calls generalizing s t with
  | nil => rfl
  | cons c calls ih =>
    obtain ⟨s', hanswer, hrel⟩ := hcall s t c h (hok c (List.mem_cons_self ..))
    have hrest := ih hrel fun c' hc' => hok c' (List.mem_cons_of_mem c hc')
    rw [session, hanswer, Outcome.bind_done, hrest, Outcome.map_done, modelled]

/-- What every call keeps, and what every answer is. -/
theorem session_keeps {call : σ → ι → Outcome (β × σ)} {inv : σ → Prop} {good : β → Prop}
    (hcall : ∀ s c b s', inv s → call s c = .done (b, s') → good b ∧ inv s') {s : σ} {calls : List ι} {answers : List β}
    (hs : inv s) (h : session call s calls = .done answers) : ∀ b ∈ answers, good b := by
  induction calls generalizing s answers with
  | nil =>
    rw [session, Outcome.done.injEq] at h
    rw [← h]
    exact fun b hb => absurd hb List.not_mem_nil
  | cons c calls ih =>
    obtain ⟨r, hanswer, hmore⟩ := Outcome.bind_eq_done h
    obtain ⟨rest, hrest, rfl⟩ := Outcome.map_eq_done hmore
    obtain ⟨hgood, hinv⟩ := hcall s c r.1 r.2 hs hanswer
    intro b hb
    rcases List.mem_cons.1 hb with rfl | hb
    · exact hgood
    · exact ih hinv hrest b hb

end Foundations
