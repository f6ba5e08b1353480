import Slideshow.Proofs.Filter.Build

/-! # What a picture mentions

A picture mentions the expressions of all operations that it is made of. Where everything that is
made ends in the streams that are held, these are the expressions of the graph, but for those of
copies. -/

namespace Slideshow

/-- One of the operations that a picture is made of has this expression. -/
inductive Picture.Mentions (t : String) : Picture → Prop where
  | own (of : List Picture) : Mentions t (.made t of)
  | inner {p : Picture} {of : List Picture} (expression : String) (hp : p ∈ of)
    (h : p.Mentions t) : Mentions t (.made expression of)

variable {op : Operation} {ops : List Operation} {t : String} {p : Picture} {ps : List Picture}
  {l : Label}

namespace Picture

theorem not_mentions_input : ¬ (input l).Mentions t := nofun

theorem mentions_made {expression : String} :
    (made expression ps).Mentions t ↔ t = expression ∨ ∃ p ∈ ps, p.Mentions t := by
  constructor
  · rintro (_ | ⟨_, hp, h⟩)
    · exact .inl rfl
    · exact .inr ⟨_, hp, h⟩
  · rintro (rfl | ⟨p, hp, h⟩)
    · exact .own ps
    · exact .inner expression hp h

end Picture

namespace Operation

/-- What an operation makes mentions what it is made of. -/
theorem mentions_picture_of_mem (hp : p ∈ ps) (h : p.Mentions t) : (op.picture ps).Mentions t := by
  rcases ps with _ | ⟨p', _ | ⟨q, ps⟩⟩
  · cases hp
  · obtain rfl := List.mem_singleton.mp hp
    rw [picture]
    split
    · exact h
    · exact .inner op.expression hp h
  · exact .inner op.expression hp h

theorem mentions_picture (h : (op.picture ps).Mentions t) :
    t = op.expression ∨ ∃ p ∈ ps, p.Mentions t := by
  rcases ps with _ | ⟨p, _ | ⟨q, ps⟩⟩
  · exact Picture.mentions_made.mp h
  · rw [picture] at h
    split at h
    · exact .inr ⟨p, List.mem_cons_self, h⟩
    · exact Picture.mentions_made.mp h
  · exact Picture.mentions_made.mp h

end Operation

namespace Graph

/-- Nothing else is mentioned than what the operations do. -/
theorem exists_of_mentions (h : (pictureOf ops l).Mentions t) : ∃ op ∈ ops, op.expression = t := by
  induction ops generalizing l with
  | nil => exact (Picture.not_mentions_input h).elim
  | cons op ops ih =>
      rw [pictureOf] at h
      split at h
      · obtain rfl | ⟨p, hp, h⟩ := Operation.mentions_picture h
        · exact ⟨op, List.mem_cons_self, rfl⟩
        · obtain ⟨l, -, rfl⟩ := List.mem_map.mp hp
          obtain ⟨op', hop', heq⟩ := ih h
          exact ⟨op', List.mem_cons_of_mem op hop', heq⟩
      · obtain ⟨op', hop', heq⟩ := ih h
        exact ⟨op', List.mem_cons_of_mem op hop', heq⟩

/-- What an operation does is mentioned in something that is held. -/
theorem exists_mentions {sources held : List Label} (h : Flow sources ops held) (hop : op ∈ ops)
    (hname : op.name ≠ "split".toList) :
    ∃ l ∈ held, (pictureOf ops.reverse l).Mentions op.expression := by
  induction h with
  | start _ => cases hop
  | @push ops last before held rest hflow hin hout hne _ hnew ih =>
      obtain ⟨o, ho⟩ := List.exists_mem_of_ne_nil _ hne
      have hmade : pictureOf (ops ++ [last]).reverse o =
          last.picture (last.inputs.map (pictureOf ops.reverse)) := by
        rw [List.reverse_append, List.reverse_singleton, List.singleton_append, pictureOf,
          if_pos ho]
      rcases List.mem_append.mp hop with hop | hop
      · obtain ⟨l, hl, hmentions⟩ := ih hop
        rcases List.mem_append.mp (hin.mem_iff.mp hl) with htaken | hrest
        · refine ⟨o, hout.mem_iff.mpr (List.mem_append_left _ ho), ?_⟩
          rw [hmade]
          exact Operation.mentions_picture_of_mem (List.mem_map_of_mem htaken) hmentions
        · -- what is not taken still shows what it did
          have hold : l ∉ last.outputs := fun hl' => by
            obtain ⟨hsource, hgiven⟩ := hnew l hl'
            exact hgiven (hflow.made_of_held hl hsource)
          refine ⟨l, hout.mem_iff.mpr (List.mem_append_right _ hrest), ?_⟩
          rwa [List.reverse_append, List.reverse_singleton, List.singleton_append, pictureOf,
            if_neg hold]
      · obtain rfl := List.mem_singleton.mp hop
        refine ⟨o, hout.mem_iff.mpr (List.mem_append_left _ ho), ?_⟩
        rw [hmade, Operation.picture_of_name hname]
        exact .own _

/-- Where nothing but a picture is held, all expressions have what those of copies have and those
that it mentions. -/
theorem Holds.forall_expression_iff {sources : List Label} {v : Label} {g : Graph}
    (h : Holds sources [(v, p)] g) {P : String → Prop}
    (hsplit : ∀ k, P ("split=" ++ Decimal.natText k)) :
    (∀ op ∈ g.ops, P op.expression) ↔ ∀ t, p.Mentions t → P t := by
  have hshows : g.picture v = p := h.shows _ List.mem_cons_self
  constructor
  · rintro hops t ht
    rw [← hshows] at ht
    obtain ⟨op, hop, rfl⟩ := exists_of_mentions ht
    exact hops op (List.mem_reverse.mp hop)
  · intro hmentioned op hop
    by_cases hname : op.name = "split".toList
    · obtain ⟨k, hk, -⟩ := (h.shaped op hop).split hname
      exact hk ▸ hsplit k
    · obtain ⟨l, hl, hmentions⟩ := exists_mentions h.flow hop hname
      obtain rfl := List.mem_singleton.mp hl
      exact hmentioned _ (hshows ▸ hmentions)

end Graph

end Slideshow
