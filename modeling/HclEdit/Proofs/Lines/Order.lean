import HclEdit.Indent.Site
import HclEdit.Proofs.Text.Indentation

/-!
# Lines stand one after the other

A line ends before the next one starts, so the first characters of lines are in the order of the
lines.
-/

namespace HclEdit

namespace Line

theorem start_terminated (start : Nat) (piece : Text) : (terminated start piece).start = start := by
  unfold terminated
  split <;> rfl

theorem stop_terminated_le (start : Nat) (piece : Text) :
    (terminated start piece).stop ≤ start + Text.byteLength piece := by
  unfold terminated
  split
  · next hreturn =>
      obtain ⟨front, rfl⟩ := List.getLast?_eq_some_iff.1 hreturn
      rw [stop, List.dropLast_concat, Text.byteLength_append]
      exact Nat.add_le_add_left (Nat.le_add_right _ _) start
  · exact Nat.le_refl _

theorem start_le_firstOffset (line : Line) : line.start ≤ line.firstOffset :=
  Nat.le_add_right _ _

theorem firstOffset_le_stop (line : Line) : line.firstOffset ≤ line.stop :=
  Nat.add_le_add_left (Nat.sub_le _ _) line.start

theorem firstOffset_lt_stop {line : Line} (hblank : line.isBlank = false) :
    line.firstOffset < line.stop := by
  obtain ⟨front, hfront, -⟩ := Text.exists_append_trimStart line.content
  have hlength := congrArg Text.byteLength hfront
  rw [Text.byteLength_append] at hlength
  cases htrim : Text.trimStart line.content with
  | nil =>
      rw [isBlank, Text.isBlankText_iff.2 htrim] at hblank
      exact absurd hblank nofun
  | cons c rest =>
      have hpos := c.utf8Size_pos
      rw [htrim, Text.byteLength_cons] at hlength
      rw [firstOffset, stop, htrim, Text.byteLength_cons]
      omega

end Line

namespace LineTable

theorem le_start_of_mem_layOut {start : Nat} {pieces : List Text} {line : Line}
    (hline : line ∈ layOut start pieces) : start ≤ line.start := by
  fun_induction layOut start pieces with
  | case1 => exact absurd hline List.not_mem_nil
  | case2 start last =>
      obtain rfl := List.mem_singleton.1 hline
      exact Nat.le_refl _
  | case3 start piece others _ ih =>
      rcases List.mem_cons.1 hline with rfl | hline
      · exact Nat.le_of_eq (Line.start_terminated start piece).symm
      · have hstart := ih hline
        omega

theorem pairwise_layOut (start : Nat) (pieces : List Text) :
    (layOut start pieces).Pairwise fun line other => line.stop ≤ other.start := by
  fun_induction layOut start pieces with
  | case1 => exact .nil
  | case2 => exact List.pairwise_singleton _ _
  | case3 start piece others _ ih =>
      refine List.pairwise_cons.2 ⟨fun other hother => ?_, ih⟩
      have hstop := Line.stop_terminated_le start piece
      have hstart := le_start_of_mem_layOut hother
      omega

theorem stop_le_start {text : Text} {number later : Nat} {line other : Line}
    (hline : (ofText text).line? number = some line)
    (hother : (ofText text).line? later = some other) (hlt : number < later) :
    line.stop ≤ other.start := by
  obtain ⟨hnumber, rfl⟩ := List.getElem?_eq_some_iff.1 hline
  obtain ⟨hlater, rfl⟩ := List.getElem?_eq_some_iff.1 hother
  exact List.pairwise_iff_getElem.1 (pairwise_layOut 0 _) number later hnumber hlater hlt

/-- The line whose first character comes earlier is the earlier line. -/
theorem lt_of_firstOffset_lt {text : Text} {number later : Nat} {line other : Line}
    (hline : (ofText text).line? number = some line)
    (hother : (ofText text).line? later = some other)
    (hlt : line.firstOffset < other.firstOffset) : number < later := by
  rcases Nat.lt_trichotomy number later with hnumber | rfl | hnumber
  · exact hnumber
  · rw [hline] at hother
    obtain rfl := Option.some.inj hother
    exact absurd hlt (Nat.lt_irrefl _)
  · have hle :=
      calc other.firstOffset
          ≤ other.stop := other.firstOffset_le_stop
        _ ≤ line.start := stop_le_start hother hline hnumber
        _ ≤ line.firstOffset := line.start_le_firstOffset
    exact absurd hlt (Nat.not_lt_of_le hle)

theorem length_takeWhile_layOut_zero (pieces : List Text) :
    ((layOut 0 pieces).takeWhile (·.start ≤ 0)).length ≤ 1 := by
  unfold layOut
  split
  · exact Nat.zero_le _
  · exact (List.takeWhile_sublist _).length_le
  · next piece others _ =>
      have hrest :
          (layOut (0 + Text.byteLength piece + 1) others).takeWhile (·.start ≤ 0) = [] := by
        cases hlines : layOut (0 + Text.byteLength piece + 1) others with
        | nil => rfl
        | cons line rest =>
            have hstart : 0 + Text.byteLength piece + 1 ≤ line.start :=
              le_start_of_mem_layOut (hlines ▸ List.mem_cons_self)
            exact List.takeWhile_cons_of_neg (by simp; omega)
      rw [List.takeWhile_cons]
      split
      · rw [hrest]
        exact Nat.le_refl _
      · exact Nat.zero_le _

theorem rowOf_zero (text : Text) : (ofText text).rowOf 0 = 0 :=
  Nat.sub_eq_zero_of_le (length_takeWhile_layOut_zero _)

end LineTable

end HclEdit
