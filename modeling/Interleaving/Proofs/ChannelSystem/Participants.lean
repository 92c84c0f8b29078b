import Interleaving.Proofs.ChannelSystem.Symmetry
import Interleaving.Proofs.Exploration.Soundness
import Interleaving.Proofs.Script.Kinds

/-!
# Who Takes Part in a Step

Under the standard registry a step of a channel system is taken by one process or by
two, and its label tells which. A process alone takes an action, and a combined text is
that of two one-sided actions of different processes. Since no text is of two kinds, a
one-sided action is never a label: it has no effect by itself, and what it becomes
together with a partner is a text of another kind.

Both come from the offers of a state. The moves are there for states with one location
for each process, which all reachable states have, so the result holds of whatever an
exploration has found, however it ended.

## Main definitions

* `ChannelSystem.TakePart`: The ways in which processes take part in a step.

## Theorems

* `ChannelSystem.takePart_of_leads`: Every step is taken in one of these ways.
* `ChannelSystem.TakePart.not_oneSided`: No step is labelled with a one-sided action.
* `one_kind_each_and_no_label_oneSided`: Texts are of one kind at most, and labels are never
  one-sided.
-/

namespace Interleaving

open Script

variable {L : Type}

namespace ChannelSystem

/-- The ways in which processes take part in a step, with its label. All processes that
    do not take part stay where they are. -/
inductive TakePart (c : ChannelSystem L) (s t : SystemState L) : String → Prop where
  /-- One process takes an action. -/
  | alone (o : Offer L) (hgoes : c.Goes s t o)
      (hothers : ∀ k, k ≠ o.process → t.locations[k]? = s.locations[k]?)
      (hkind : Kind.action.reads o.edge.action = true) : TakePart c s t o.edge.action
  /-- Two processes take one-sided actions, the earlier one first. -/
  | together (o p : Offer L) (hlt : o.process < p.process) (hfirst : c.Goes s t o)
      (hsecond : c.Goes s t p)
      (hothers : ∀ k, k ≠ o.process → k ≠ p.process → t.locations[k]? = s.locations[k]?)
      (hfirstKind : Kind.oneSided.reads o.edge.action = true)
      (hsecondKind : Kind.oneSided.reads p.edge.action = true) :
      TakePart c s t (combine o.edge.action p.edge.action)

variable {c : ChannelSystem L} {s t : SystemState L} {action : String}

/-- What an action alone and what two of them together are is never one-sided. -/
theorem TakePart.not_oneSided (h : c.TakePart s t action) : Kind.oneSided.reads action = false := by
  rw [← Bool.not_eq_true]
  intro hside
  cases h with
  | alone o _ _ hkind => cases Kind.eq_of_reads hside hkind
  | together o p _ _ _ _ hfirstKind hsecondKind =>
      rcases Option.isSome_iff_exists.mp hfirstKind with ⟨first, hfirst⟩
      rcases Option.isSome_iff_exists.mp hsecondKind with ⟨second, hsecond⟩
      have hpair : Kind.rendezvous.reads (combine o.edge.action p.edge.action) = true := by
        rw [Kind.reads, parsePair?_combine hfirst hsecond]
        rfl
      cases Kind.eq_of_reads hside hpair

variable [DecidableEq L]

theorem takePart_of_alone? {o : Offer L} (ho : o ∈ c.offers s)
    (h : o.alone? (Registry.standard : Registry Id) s = some ⟨t, action⟩) :
    c.TakePart s t action := by
  rcases goes_of_alone? ho h with ⟨hgoes, hothers⟩
  rcases Offer.alone?_eq_some_iff.mp h with ⟨-, -, env, heffect, hmove⟩
  cases hmove
  rcases run_standard_effect_eq_ok_iff.mp heffect with ⟨ss, hparse, -⟩
  exact .alone o hgoes hothers (Option.isSome_iff_exists.mpr ⟨ss, hparse⟩)

theorem takePart_of_together? {o p : Offer L} (ho : o ∈ c.offers s) (hp : p ∈ c.offers s)
    (h : o.together? (Registry.standard : Registry Id) s p = some ⟨t, action⟩) :
    c.TakePart s t action := by
  rcases goes_of_together? ho hp h with ⟨hfirst, hsecond, hothers⟩
  rcases Offer.together?_eq_some_iff.mp h with ⟨⟨hlt, hside, hside', -⟩, -, -, env, -, hmove⟩
  cases hmove
  rw [standard_isOneSided] at hside hside'
  exact .together o p hlt hfirst hsecond hothers hside hside'

/-- Every step is taken by one process or by two. -/
theorem takePart_of_leads (hs : s.Fits c)
    (h : (c.dynamics (Registry.standard : Registry Id)).Leads s action t) :
    c.TakePart s t action := by
  rcases ((leads_iff hs).mp h).2 with ⟨o, ho, halone | ⟨p, hp, htogether⟩⟩
  · exact takePart_of_alone? ho halone
  · exact takePart_of_together? ho hp htogether

end ChannelSystem

/-- A text is of one kind at most. So a one-sided action has no effect by itself, in
    whatever environment, and in an exploration of a channel system, whatever its limits
    and however it ended, no label is one-sided. Each transition is taken by one
    process with an action or by two different processes with one-sided actions, whose combined
    text is its label. -/
theorem one_kind_each_and_no_label_oneSided [DecidableEq L] :
    (∀ (kind kind' : Kind) (text : String), kind.reads text = true → kind'.reads text = true →
      kind = kind') ∧
    (∀ text, Kind.oneSided.reads text = true → ∀ env,
      ((Registry.standard : Registry Id).effect env text).run =
        .error (.unrecognizedAction text)) ∧
    ∀ (c : ChannelSystem L) (limits : Limits) (budget : Nat)
      (found : Exploration (SystemState L)),
      ((c.dynamics (Registry.standard : Registry Id)).explore limits budget).run =
        .ok (some found) →
      (∀ step ∈ found.system.resolvedTransitions,
        c.TakePart step.source step.target step.action) ∧
      ∀ action ∈ found.system.actions, Kind.oneSided.reads action = false ∧
        ∃ step ∈ found.system.resolvedTransitions, step.action = action := by
  refine ⟨fun kind kind' text => Kind.eq_of_reads, ?_, ?_⟩
  · intro text hside env
    refine run_standard_effect_of_not_action ?_
    rw [← Bool.not_eq_true]
    intro haction
    cases Kind.eq_of_reads hside haction
  · intro c limits budget found hrun
    have hwithin := Dynamics.within_of_explore hrun
    have hpart : ∀ step ∈ found.system.resolvedTransitions,
        c.TakePart step.source step.target step.action := by
      intro step hstep
      rcases hwithin.leads step hstep with ⟨hsource, hleads⟩
      exact ChannelSystem.takePart_of_leads
        (ChannelSystem.fits_of_reachable (hwithin.reachable _ hsource)) hleads
    refine ⟨hpart, ?_⟩
    intro action haction
    rcases (hwithin.mem_actions_iff action).mp haction with ⟨step, hstep, rfl⟩
    exact ⟨(hpart step hstep).not_oneSided, step, hstep, rfl⟩

/-- The giver sends along the channel, but no label says so: it is sent and received in one
    step. -/
theorem handover_no_label_oneSided :
    let d := ChannelSystem.handover.dynamics (Registry.standard : Registry Id)
    Kind.oneSided.reads "c!n+1" = true ∧
      (∀ kind : Kind, kind.reads "c!n+1" = true → kind = .oneSided) ∧
      (∀ env, ((Registry.standard : Registry Id).effect env "c!n+1").run =
        .error (.unrecognizedAction "c!n+1")) ∧
      ∃ found, (d.explore .unbounded 4).run = .ok (some found) ∧
        found.system.actions.toList = ["c!n+1|c?m", "n:=n+1"] ∧
        (∀ step ∈ found.system.resolvedTransitions,
          ChannelSystem.handover.TakePart step.source step.target step.action) ∧
        ∀ action ∈ found.system.actions, Kind.oneSided.reads action = false := by
  intro d
  have hside : Kind.oneSided.reads "c!n+1" = true := by decide +kernel
  have hactions : ((d.explore .unbounded 4).found?).map (·.system.actions.toList) =
      some ["c!n+1|c?m", "n:=n+1"] := by
    decide +kernel
  rcases Option.map_eq_some_iff.mp hactions with ⟨found, hfound, hactions⟩
  have hrun := Explore.run_of_found? hfound
  have h := one_kind_each_and_no_label_oneSided (L := String)
  refine ⟨hside, fun kind hkind => h.1 kind .oneSided _ hkind hside, h.2.1 _ hside,
    found, hrun, hactions, (h.2.2 _ _ _ _ hrun).1, ?_⟩
  intro action haction
  exact ((h.2.2 _ _ _ _ hrun).2 action haction).1

end Interleaving
