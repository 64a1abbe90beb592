/-
This file compares documents that have the same references, of which more are live in the one than
in the other.
-/
import StorageSchema.Proofs.Check.PlainData

namespace StorageSchema

open Relation (TransGen)

variable {Mark : Type}

/-- One document is more live than another if it declares the same names and has the same
references. Those that were live are live, and others may be. -/
structure Document.MoreLive (document other : Document Mark) : Prop where
  declares : ∀ name, other.declares name = document.declares name
  leads : ∀ isLive source target, document.Leads isLive source target →
    ∃ now, (isLive = true → now = true) ∧ other.Leads now source target
  plain : ∀ source target, other.Leads false source target →
    document.Leads false source target

namespace Document.MoreLive

variable {document other : Document Mark}

/-- Every chain is there still, and it is live if it was. -/
theorem chain (moreLive : document.MoreLive other) {isLive : Bool} {name : String}
    (chain : document.Chain isLive name) :
    ∃ now, (isLive = true → now = true) ∧ other.Chain now name := by
  induction chain with
  | first step aside =>
      obtain ⟨now, implies, leads⟩ := moreLive.leads _ _ _ step
      exact ⟨now, implies, .first leads aside⟩
  | next _ step aside inductionHypothesis =>
      obtain ⟨before, earlier, chain⟩ := inductionHypothesis
      obtain ⟨now, implies, leads⟩ := moreLive.leads _ _ _ step
      refine ⟨before || now, ?_, .next chain leads aside⟩
      simp only [Bool.or_eq_true]
      exact Or.imp earlier implies

theorem live_chain (moreLive : document.MoreLive other) {name : String}
    (chain : document.Chain true name) : other.Chain true name := by
  obtain ⟨now, implies, chain⟩ := moreLive.chain chain
  obtain rfl := implies rfl
  exact chain

/-- The static names can only become fewer. -/
theorem isStatic (moreLive : document.MoreLive other) {name : String}
    (static : other.IsStatic name) : document.IsStatic name := by
  obtain ⟨declared, aside, noChain⟩ := static
  rw [moreLive.declares] at declared
  exact ⟨declared, aside, fun chain => noChain (moreLive.live_chain chain)⟩

theorem plainEdge (moreLive : document.MoreLive other) {source target : String}
    (edge : other.PlainEdge source target) : document.PlainEdge source target := by
  obtain ⟨sourceStatic, targetStatic, leads⟩ := edge
  exact ⟨moreLive.isStatic sourceStatic, moreLive.isStatic targetStatic,
    moreLive.plain source target leads⟩

/-- Where plain edges do not lead around they still do not. -/
theorem staticCycles_eq_nil (moreLive : document.MoreLive other)
    (noLoop : ∀ name, ¬ TransGen document.PlainEdge name name) : other.staticCycles = [] := by
  apply List.eq_nil_iff_forall_not_mem.2
  intro members cycle
  have component := (other.mem_staticCycles_iff members).1 cycle
  obtain ⟨member, isMember⟩ := component.exists_mem
  apply noLoop member
  have loop := component.loop other.nodup_firstNames isMember
  exact TransGen.mono (fun _ _ => moreLive.plainEdge) _ _ loop

end Document.MoreLive

end StorageSchema
