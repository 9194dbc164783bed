import Mathlib.Data.List.Sort

/-!
# Pages of a changing list

A reader takes the pages of a list at the offsets `0`, `limit`, `2 * limit`, … until one comes back
short, while the list changes between the reads.  As long as the list only grows, wherever the new
elements come to stand, an element that has not been read yet is below the next offset (`Walk.mem`);
where it does not change, the pages are the list (`Walk.flatten`).
-/

namespace Account

variable {σ α : Type}

/-- A page of a list. -/
def page (l : List α) (limit offset : ℕ) : List α := (l.drop offset).take limit

/-- The pages that a reader gets from `offset` on; before every read the state has moved by `R`. -/
inductive Walk (view : σ → List α) (R : σ → σ → Prop) (limit : ℕ) : ℕ → σ → List (List α) → Prop
  | last {offset s s'} (hR : R s s') (hshort : (page (view s') limit offset).length < limit) :
      Walk view R limit offset s [page (view s') limit offset]
  | next {offset s s' pages} (hR : R s s') (hfull : ¬(page (view s') limit offset).length < limit)
      (hrest : Walk view R limit (offset + limit) s' pages) :
      Walk view R limit offset s (page (view s') limit offset :: pages)

variable {view : σ → List α} {R : σ → σ → Prop} {limit offset : ℕ} {s : σ} {pages : List (List α)}

theorem page_append_drop (l : List α) (limit offset : ℕ) :
    page l limit offset ++ l.drop (offset + limit) = l.drop offset := by
  unfold page
  rw [← List.drop_drop, List.take_append_drop]

/-- A short page is the last one. -/
theorem drop_eq_nil_of_short {l : List α} (h : (page l limit offset).length < limit) :
    l.drop (offset + limit) = [] := by
  unfold page at h
  rw [List.length_take, List.length_drop] at h
  exact List.drop_eq_nil_of_le (by omega)

/-- **Nothing is lost.**  What is below the offset of a reader, in a list that only grows, is in one of
the pages. -/
theorem Walk.mem {I : σ → Prop} (h : Walk view R limit offset s pages) (hs : I s)
    (hgrow : ∀ s s', I s → R s s' → I s' ∧ (view s).Sublist (view s')) {x : α}
    (hx : x ∈ (view s).drop offset) : ∃ p ∈ pages, x ∈ p := by
  -- an unread element is on the page, or below the next offset
  have hread : ∀ {s s' : σ} {offset : ℕ}, I s → R s s' → x ∈ (view s).drop offset →
      x ∈ page (view s') limit offset ∨ x ∈ (view s').drop (offset + limit) := by
    intro s s' offset hs hR hx
    have hmem : x ∈ (view s').drop offset := ((hgrow s s' hs hR).2.drop offset).subset hx
    rw [← page_append_drop (view s') limit offset] at hmem
    exact List.mem_append.mp hmem
  induction h with
  | last hR hshort =>
    rcases hread hs hR hx with hpage | hbelow
    · exact ⟨_, List.mem_singleton_self _, hpage⟩
    · rw [drop_eq_nil_of_short hshort] at hbelow
      exact absurd hbelow List.not_mem_nil
  | next hR hfull hrest ih =>
    rcases hread hs hR hx with hpage | hbelow
    · exact ⟨_, List.mem_cons_self, hpage⟩
    · obtain ⟨p, hp, hxp⟩ := ih (hgrow _ _ hs hR).1 hbelow
      exact ⟨p, List.mem_cons_of_mem _ hp, hxp⟩

/-- The pages of a list that does not change make up the list. -/
theorem Walk.flatten (h : Walk view R limit offset s pages)
    (hsame : ∀ s s', R s s' → view s' = view s) : pages.flatten = (view s).drop offset := by
  induction h with
  | @last offset s s' hR hshort =>
    have hdrop := page_append_drop (view s') limit offset
    rw [drop_eq_nil_of_short hshort, List.append_nil] at hdrop
    rw [List.flatten_singleton, hdrop, hsame s s' hR]
  | @next offset s s' pages hR hfull hrest ih =>
    rw [List.flatten_cons, ih, page_append_drop, hsame s s' hR]

/-- Sorting keeps the part of a list in its order. -/
theorem insertionSort_sublist (r : α → α → Prop) [DecidableRel r] [Std.Total r] [IsTrans α r]
    {l l' : List α} (h : l.Sublist l') : (l.insertionSort r).Sublist (l'.insertionSort r) := by
  induction h with
  | slnil => exact List.Sublist.refl _
  | cons a _ ih => exact ih.trans (List.sublist_orderedInsert a _)
  | cons_cons a _ ih => exact List.Sublist.orderedInsert_sublist a ih (List.pairwise_insertionSort r _)

end Account
