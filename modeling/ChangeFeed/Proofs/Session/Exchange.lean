import ChangeFeed.Session.Basic

/-!
# What an exchange ensures

An exchange with a server may fail at any of its questions, and what the server has done until then
stays done. So `Exchange.Ensures` says two things of an exchange: what holds of the world however
it ends, and what holds in addition of its value if it succeeds.
-/

namespace ChangeFeed.Exchange

variable {σ α β : Type}

/-- From every state with a property `P`, an exchange leads to a world with the property `I`, and if
it succeeds, to a value and a state with the property `Q`. -/
def Ensures (P : Link × σ → Prop) (e : Exchange σ α) (I : σ → Prop)
    (Q : α → Link × σ → Prop) : Prop :=
  ∀ state, P state → I (e state).2.2 ∧ ∀ v, (e state).1 = .ok v → Q v (e state).2

variable {P : Link × σ → Prop} {I : σ → Prop} {Q : α → Link × σ → Prop} {R : β → Link × σ → Prop}

/-- An exchange that goes on with the answer of another one. -/
theorem Ensures.and_then {first : Exchange σ α} {next : α → Exchange σ β}
    (hfirst : Ensures P first I Q) (hnext : ∀ v, Ensures (Q v) (next v) I R) :
    Ensures P (first.andThen next) I R := by
  intro state hstate
  obtain ⟨hworld, hvalue⟩ := hfirst state hstate
  unfold andThen
  split
  · rename_i v after heq
    rw [heq] at hvalue
    exact hnext v after (hvalue v rfl)
  · rename_i fault after heq
    rw [heq] at hworld
    exact ⟨hworld, fun v hv => absurd hv (by simp)⟩

/-- An exchange that needs no server. -/
theorem ensures_of_result {result : Except SessionFault α} (hworld : ∀ state, P state → I state.2)
    (hvalue : ∀ v state, P state → result = .ok v → Q v state) :
    Ensures P (ofResult result) I Q :=
  fun state hstate => ⟨hworld state hstate, fun v hv => hvalue v state hstate hv⟩

/-- How a question goes over a connection: it does not reach the server, or the server answers with
rows, refuses, or is lost meanwhile. -/
theorem ask_cases (server : Server σ) (task : SessionTask) (s : Statement) (state : Link × σ) :
    (∃ fault, ask server task s state = (.error fault, state)) ∨
      (state.1 = .live ∧ ∃ reply after, server s state.2 = (reply, after) ∧
        ((∃ rows, reply = .rows rows ∧ ask server task s state = (.ok rows, .live, after)) ∨
          ∃ fault link, ask server task s state = (.error fault, link, after))) := by
  obtain ⟨link, world⟩ := state
  cases link with
  | closed => exact .inl ⟨_, rfl⟩
  | lost => exact .inl ⟨_, rfl⟩
  | live =>
      refine .inr ⟨rfl, _, _, rfl, ?_⟩
      cases hreply : server s world with
      | mk reply after =>
          cases reply with
          | rows rows => exact .inl ⟨rows, rfl, by simp [ask, hreply]⟩
          | refused code message => exact .inr ⟨_, _, by simp only [ask, hreply]; rfl⟩
          | lost => exact .inr ⟨_, _, by simp only [ask, hreply]; rfl⟩

/-- A question, when it is known what the server makes of it. -/
theorem ensures_ask {server : Server σ} {task : SessionTask} {s : Statement}
    {Q : List (List Cell) → Link × σ → Prop} (hworld : ∀ state, P state → I state.2)
    (hserver : ∀ world, P (.live, world) → I (server s world).2)
    (hrows : ∀ world rows after, P (.live, world) → server s world = (.rows rows, after) →
      Q rows (.live, after)) : Ensures P (ask server task s) I Q := by
  intro state hstate
  rcases ask_cases server task s state with
    ⟨fault, hask⟩ | ⟨hlive, reply, after, hreply, ⟨rows, rfl, hask⟩ | ⟨fault, link, hask⟩⟩
  · rw [hask]
    exact ⟨hworld state hstate, fun v hv => absurd hv (by simp)⟩
  · obtain ⟨link, world⟩ := state
    obtain rfl : link = .live := hlive
    rw [hask]
    refine ⟨by simpa [hreply] using hserver world hstate, ?_⟩
    intro v hv
    exact Except.ok.inj hv ▸ hrows world rows after hstate hreply
  · obtain ⟨link', world⟩ := state
    obtain rfl : link' = .live := hlive
    rw [hask]
    exact ⟨by simpa [hreply] using hserver world hstate, fun v hv => absurd hv (by simp)⟩

end ChangeFeed.Exchange
