import Mathlib.Data.List.Basic
import Mathlib.Data.List.GetD
import Mathlib.Tactic.Common

/-!
# Overwriting and linking

A list is overwritten in place. A list of pieces behind each other, some of which name a label, is linked by overwriting what
stands for the labels once their positions are known. What comes out is the same as if the positions had been known before.
-/

namespace Patching

variable {α : Type*} {l target new : List α} {p k : Nat}

/-- The list with other elements from a position on. -/
def overwrite (l : List α) (p : Nat) (new : List α) : List α := l.take p ++ new ++ l.drop (p + new.length)

theorem length_overwrite (h : p + new.length ≤ l.length) : (overwrite l p new).length = l.length := by
  simp only [overwrite, List.length_append, List.length_take, List.length_drop]
  omega

/-- The new elements stand where they were put, the others where they were. -/
theorem getElem?_overwrite (h : p + new.length ≤ l.length) :
    (overwrite l p new)[k]? = if p ≤ k ∧ k < p + new.length then new[k - p]? else l[k]? := by
  have hp : (l.take p).length = p := by rw [List.length_take]; omega
  rw [overwrite, List.append_assoc]
  by_cases h1 : k < p
  · rw [List.getElem?_append_left (by omega), List.getElem?_take_of_lt h1, if_neg (by omega)]
  · rw [List.getElem?_append_right (by omega), hp]
    by_cases h2 : k < p + new.length
    · rw [List.getElem?_append_left (by omega), if_pos ⟨by omega, h2⟩]
    · rw [List.getElem?_append_right (by omega), List.getElem?_drop, if_neg (by omega)]
      congr 1
      omega

theorem set_eq_overwrite (a : α) (h : p < l.length) : l.set p a = overwrite l p [a] := by
  rw [List.set_eq_take_append_cons_drop, if_pos h, overwrite, List.append_assoc]
  rfl

/-- Overwriting behind what has just been overwritten is overwriting with both. -/
theorem overwrite_overwrite {new' : List α} (h : p + new.length + new'.length ≤ l.length) :
    overwrite (overwrite l p new) (p + new.length) new' = overwrite l p (new ++ new') := by
  refine List.ext_getElem? fun k => ?_
  have hlen : (overwrite l p new).length = l.length := length_overwrite (by omega)
  rw [getElem?_overwrite (by omega), getElem?_overwrite (by omega), getElem?_overwrite (by rw [List.length_append]; omega),
    List.length_append]
  by_cases h1 : p + new.length ≤ k
  · rw [if_neg (show ¬ (p ≤ k ∧ k < p + new.length) by omega), List.getElem?_append_right (by omega), Nat.sub_sub]
    exact if_congr (by omega) rfl rfl
  · rw [if_neg (by omega)]
    by_cases h2 : p ≤ k
    · rw [if_pos ⟨h2, by omega⟩, if_pos ⟨h2, by omega⟩, List.getElem?_append_left (by omega)]
    · rw [if_neg (by omega), if_neg (by omega)]

/-! ## Many patches -/

/-- Overwriting with each of the patches, a patch being a position and what goes there. -/
def overwriteAll (l : List α) (patches : List (Nat × List α)) : List α :=
  patches.foldl (fun l patch => overwrite l patch.1 patch.2) l

theorem overwriteAll_append (patches patches' : List (Nat × List α)) :
    overwriteAll l (patches ++ patches') = overwriteAll (overwriteAll l patches) patches' := List.foldl_append

/-- A patch that puts what a list has there already. -/
def Agrees (target : List α) (patch : Nat × List α) : Prop :=
  patch.1 + patch.2.length ≤ target.length ∧ ∀ k < patch.2.length, target[patch.1 + k]? = patch.2[k]?

/-- The positions that a patch overwrites. -/
def Covers (patch : Nat × List α) (k : Nat) : Prop := patch.1 ≤ k ∧ k < patch.1 + patch.2.length

theorem length_overwriteAll {patches : List (Nat × List α)} (h : ∀ patch ∈ patches, patch.1 + patch.2.length ≤ l.length) :
    (overwriteAll l patches).length = l.length := by
  induction patches generalizing l with
  | nil => rfl
  | cons patch patches ih =>
    obtain ⟨hpatch, hrest⟩ := List.forall_mem_cons.1 h
    have hlen := length_overwrite hpatch
    calc (overwriteAll (overwrite l patch.1 patch.2) patches).length
      _ = (overwrite l patch.1 patch.2).length := ih (by simpa only [hlen] using hrest)
      _ = l.length := hlen

/-- Patches that agree with a list, and of which one covers each difference to it, make that list, in whatever order. -/
theorem overwriteAll_eq {patches : List (Nat × List α)} (hlen : l.length = target.length)
    (hagree : ∀ patch ∈ patches, Agrees target patch)
    (hcover : ∀ k, l[k]? = target[k]? ∨ ∃ patch ∈ patches, Covers patch k) : overwriteAll l patches = target := by
  induction patches generalizing l with
  | nil => exact List.ext_getElem? fun k => (hcover k).resolve_right (by simp)
  | cons patch patches ih =>
    obtain ⟨⟨hfits, hsame⟩, hrest⟩ := List.forall_mem_cons.1 hagree
    have hin : patch.1 + patch.2.length ≤ l.length := by omega
    refine ih ((length_overwrite hin).trans hlen) hrest fun k => ?_
    rw [getElem?_overwrite hin]
    by_cases hk : patch.1 ≤ k ∧ k < patch.1 + patch.2.length
    · left
      have h := hsame (k - patch.1) (by omega)
      rw [if_pos hk, ← h]
      congr 1
      omega
    · rw [if_neg hk]
      refine (hcover k).imp_right ?_
      rintro ⟨patch', hmem, hcovers⟩
      rcases List.mem_cons.1 hmem with rfl | hmem
      · exact absurd hcovers hk
      · exact ⟨patch', hmem, hcovers⟩

/-! ## Pieces behind each other -/

/-- Where a piece begins. -/
def offset (pieces : List (List α)) (i : Nat) : Nat := (pieces.take i).flatten.length

variable {pieces pieces' : List (List α)} {piece : List α} {i j : Nat}

theorem offset_succ (h : pieces[i]? = some piece) : offset pieces (i + 1) = offset pieces i + piece.length := by
  rw [offset, offset, List.take_add_one, h, List.flatten_append, List.length_append]
  simp

theorem offset_length : offset pieces pieces.length = pieces.flatten.length := by
  rw [offset, List.take_length]

theorem offset_append_left (h : i ≤ pieces.length) : offset (pieces ++ pieces') i = offset pieces i := by
  rw [offset, offset, List.take_append_of_le_length h]

theorem offset_mono (h : i ≤ j) : offset pieces i ≤ offset pieces j := by
  obtain ⟨d, rfl⟩ := Nat.exists_eq_add_of_le h
  rw [offset, offset, List.take_add, List.flatten_append, List.length_append]
  exact Nat.le_add_right ..

/-- Where the pieces begin depends on their lengths only. -/
theorem offset_congr (h : pieces.map List.length = pieces'.map List.length) (i : Nat) : offset pieces i = offset pieces' i := by
  rw [offset, offset, List.length_flatten, List.length_flatten, List.map_take, List.map_take, h]

/-- Where a piece begins there is the piece, and those behind it. -/
theorem drop_offset (h : pieces[i]? = some piece) :
    pieces.flatten.drop (offset pieces i) = piece ++ (pieces.drop (i + 1)).flatten := by
  obtain ⟨hi, hget⟩ := List.getElem?_eq_some_iff.1 h
  have hsplit : pieces.flatten = (pieces.take i).flatten ++ (piece ++ (pieces.drop (i + 1)).flatten) := by
    rw [← List.flatten_cons, ← List.flatten_append, ← hget, List.getElem_cons_drop, List.take_append_drop]
  rw [hsplit, offset, List.drop_left]

theorem getElem?_flatten (h : pieces[i]? = some piece) (hk : k < piece.length) :
    pieces.flatten[offset pieces i + k]? = piece[k]? := by
  rw [← List.getElem?_drop, drop_offset h, List.getElem?_append_left hk]

theorem offset_add_le (h : pieces[i]? = some piece) : offset pieces i + piece.length ≤ pieces.flatten.length := by
  rw [← offset_succ h, ← offset_length]
  exact offset_mono (List.getElem?_eq_some_iff.1 h).1

/-- An element of the whole is one of a piece. -/
theorem exists_piece (h : k < pieces.flatten.length) :
    ∃ i piece q, pieces[i]? = some piece ∧ q < piece.length ∧ k = offset pieces i + q := by
  induction pieces generalizing k with
  | nil => simp at h
  | cons piece pieces ih =>
    by_cases hk : k < piece.length
    · exact ⟨0, piece, k, rfl, hk, by simp [offset]⟩
    · rw [List.flatten_cons, List.length_append] at h
      obtain ⟨i, piece', q, hget, hq, heq⟩ := ih (k := k - piece.length) (by omega)
      refine ⟨i + 1, piece', q, by simpa using hget, hq, ?_⟩
      have hoffset : offset (piece :: pieces) (i + 1) = piece.length + offset pieces i := by
        simp [offset]
      omega

/-! ## Linking -/

/-- A piece, or one that ends with what stands for a label. -/
inductive Fragment (α : Type*) where
  | plain (piece : List α)
  | jump (opcode : List α) (label : Nat)

namespace Fragment

/-- The piece before the labels are known. -/
def draft (hole : List α) : Fragment α → List α
  | plain piece => piece
  | jump opcode _ => opcode ++ hole

/-- The piece when it is known what stands for a label at a position. -/
def linked (displacement : Nat → Nat → List α) (start : Nat) : Fragment α → List α
  | plain piece => piece
  | jump opcode label => opcode ++ displacement label (start + opcode.length)

end Fragment

variable {fragments fragments' : List (Fragment α)} {hole opcode : List α} {label : Nat} {displacement : Nat → Nat → List α}

/-- All pieces before the labels are known. -/
def drafts (hole : List α) (fragments : List (Fragment α)) : List (List α) := fragments.map (Fragment.draft hole)

/-- All pieces when the labels are known. -/
def links (hole : List α) (displacement : Nat → Nat → List α) (fragments : List (Fragment α)) : List (List α) :=
  fragments.mapIdx fun i fragment => fragment.linked displacement (offset (drafts hole fragments) i)

theorem length_drafts : (drafts hole fragments).length = fragments.length := List.length_map ..

theorem drafts_append : drafts hole (fragments ++ fragments') = drafts hole fragments ++ drafts hole fragments' := List.map_append

theorem getElem?_drafts (hole : List α) {fragment : Fragment α} (h : fragments[i]? = some fragment) :
    (drafts hole fragments)[i]? = some (fragment.draft hole) := by
  rw [drafts, List.getElem?_map, h, Option.map_some]

theorem getElem?_links (hole : List α) (displacement : Nat → Nat → List α) {fragment : Fragment α}
    (h : fragments[i]? = some fragment) :
    (links hole displacement fragments)[i]? = some (fragment.linked displacement (offset (drafts hole fragments) i)) := by
  rw [links, List.getElem?_mapIdx, h, Option.map_some]

/-- Linking does not move anything. -/
theorem length_links (hlen : ∀ label q, (displacement label q).length = hole.length) :
    (links hole displacement fragments).map List.length = (drafts hole fragments).map List.length := by
  refine List.ext_getElem? fun i => ?_
  simp only [links, drafts, List.getElem?_map, List.getElem?_mapIdx, Option.map_map]
  refine Option.map_congr fun fragment _ => ?_
  cases fragment with
  | plain piece => rfl
  | jump opcode label => simp [Fragment.linked, Fragment.draft, hlen]

/-- Overwriting what stands for each label links the pieces, in whatever order it is done. -/
theorem overwriteAll_drafts (hlen : ∀ label q, (displacement label q).length = hole.length) {patches : List (Nat × List α)}
    (hpatches : ∀ patch, patch ∈ patches ↔ ∃ i opcode label, fragments[i]? = some (.jump opcode label) ∧
      patch = (offset (drafts hole fragments) i + opcode.length,
        displacement label (offset (drafts hole fragments) i + opcode.length))) :
    overwriteAll (drafts hole fragments).flatten patches = (links hole displacement fragments).flatten := by
  have hlengths : (links hole displacement fragments).map List.length = (drafts hole fragments).map List.length :=
    length_links hlen
  have hoffset : ∀ i, offset (links hole displacement fragments) i = offset (drafts hole fragments) i := offset_congr hlengths
  have htotal : (drafts hole fragments).flatten.length = (links hole displacement fragments).flatten.length := by
    rw [List.length_flatten, List.length_flatten, hlengths]
  refine overwriteAll_eq htotal ?_ ?_
  · intro patch hpatch
    obtain ⟨i, opcode, label, hfragment, rfl⟩ := (hpatches patch).1 hpatch
    have hlinked := getElem?_links hole displacement hfragment
    have hfits := offset_add_le hlinked
    rw [hoffset] at hfits
    simp only [Fragment.linked, List.length_append] at hfits
    refine ⟨by simp only; omega, ?_⟩
    intro k hk
    simp only at hk
    have hget := getElem?_flatten hlinked (k := opcode.length + k) (by simp only [Fragment.linked, List.length_append]; omega)
    rw [hoffset, Fragment.linked, List.getElem?_append_right (Nat.le_add_right ..), Nat.add_sub_cancel_left] at hget
    rw [Nat.add_assoc]
    exact hget
  · intro k
    by_cases hk : k < (drafts hole fragments).flatten.length
    · obtain ⟨i, piece, q, hpiece, hq, rfl⟩ := exists_piece hk
      obtain ⟨fragment, hfragment, rfl⟩ : ∃ fragment, fragments[i]? = some fragment ∧ fragment.draft hole = piece := by
        simpa [drafts] using hpiece
      have hlinked := getElem?_links hole displacement hfragment
      cases fragment with
      | plain piece =>
        left
        rw [getElem?_flatten (getElem?_drafts hole hfragment) hq, ← hoffset, getElem?_flatten hlinked hq]
        rfl
      | jump opcode label =>
        rw [Fragment.draft, List.length_append] at hq
        by_cases hopcode : q < opcode.length
        · left
          rw [getElem?_flatten (getElem?_drafts hole hfragment) (by rw [Fragment.draft, List.length_append]; omega), ← hoffset,
            getElem?_flatten hlinked (by rw [Fragment.linked, List.length_append]; omega), Fragment.draft, Fragment.linked,
            List.getElem?_append_left hopcode, List.getElem?_append_left hopcode]
        · right
          refine ⟨_, (hpatches _).2 ⟨i, opcode, label, hfragment, rfl⟩, ?_⟩
          simp only [Covers, hlen]
          omega
    · left
      rw [List.getElem?_eq_none (by omega), List.getElem?_eq_none (by omega)]

end Patching
