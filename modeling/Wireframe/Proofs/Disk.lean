import Wireframe.Disk
import Wireframe.Proofs.Text.Cut
import Wireframe.Proofs.Text.Utf8

/-! A text that was written to a file is read from it again. -/
namespace Wireframe
open Text

variable {s first : List Char} {rest : List (List Char)} {path folder content : String}
variable {α : Type} {x : α} {entries : List (String × α)} {d e : Disk}

theorem Text.joined_concat (separator front last : List Char) (rest : List (List Char)) :
    joined separator (front :: rest ++ [last])
      = joined separator (front :: rest) ++ (separator ++ last) := by
  simp [joined_cons]

theorem Text.splitSlashes_ne_nil (s : List Char) : splitSlashes s ≠ [] := by
  unfold splitSlashes
  split
  · simp
  · simp
  · split <;> simp

theorem Text.joined_splitSlashes (s : List Char) : joined ['/'] (splitSlashes s) = s := by
  fun_induction splitSlashes s with
  | case1 => rfl
  | case2 rest ih =>
    rw [joined, ih]
    · rfl
    · exact splitSlashes_ne_nil rest
  | case3 c rest hc hnil ih =>
    rw [hnil] at ih
    rw [← ih]
    rfl
  | case4 c rest hc first others hsplit ih =>
    rw [hsplit, joined_cons] at ih
    rw [joined_cons, List.cons_append, ih]

namespace Disk

/-- The folders around a path are the paths of its front parts. -/
theorem length_le_of_mem_foldl {done : List (List Char)} (hdone : ∀ p ∈ done, p.length ≤ first.length) :
    ∀ p ∈ (rest.foldl (fun (done, last) part =>
        let next := last ++ '/' :: part
        (done ++ [next], next)) (done, first)).1,
      p.length ≤ (joined ['/'] (first :: rest)).length := by
  induction rest generalizing done first with
  | nil => exact hdone
  | cons part rest ih =>
    have hjoined : joined ['/'] (first :: part :: rest) = joined ['/'] ((first ++ '/' :: part) :: rest) := by
      simp [joined_cons]
    rw [hjoined]
    refine ih fun p hp => ?_
    rcases List.mem_append.mp hp with hp | hp
    · have hlast := hdone p hp
      rw [List.length_append]
      omega
    · obtain rfl := List.mem_singleton.mp hp
      exact Nat.le_refl _

/-- No folder around a path is the path itself. -/
theorem length_lt_of_mem_around (h : folder ∈ around path) :
    folder.toList.length < path.toList.length := by
  unfold around at h
  split at h
  · cases h
  · rename_i first rest hparts
    obtain ⟨p, hp, rfl⟩ := List.mem_map.mp h
    have hlength := length_le_of_mem_foldl (by simp) p hp
    have hpath := joined_splitSlashes path.toList
    rw [← List.dropLast_append_getLast (splitSlashes_ne_nil path.toList), hparts, joined_concat] at hpath
    rw [← hpath, String.toList_ofList, List.length_append, List.length_append, List.length_singleton]
    omega

theorem notMem_around_self (path : String) : path ∉ around path :=
  fun h => Nat.lt_irrefl _ (length_lt_of_mem_around h)

theorem find?_replace (path : String) (x : α) (entries : List (String × α)) :
    (replace path x entries).find? (fun entry => entry.1 = path) = some (path, x) := by
  induction entries with
  | nil => simp [replace]
  | cons entry entries ih =>
    obtain ⟨p, y⟩ := entry
    rw [replace]
    split
    · simp
    · rename_i hp
      rw [List.find?_cons_of_neg (by simpa using hp)]
      exact ih

theorem mem_replace {entry : String × α} (h : entry ∈ replace path x entries) :
    entry = (path, x) ∨ entry ∈ entries := by
  induction entries with
  | nil => simpa [replace] using h
  | cons first entries ih =>
    obtain ⟨p, y⟩ := first
    rw [replace] at h
    split at h
    · exact (List.mem_cons.mp h).imp_right (List.mem_cons_of_mem _)
    · rcases List.mem_cons.mp h with rfl | h
      · exact .inr List.mem_cons_self
      · exact (ih h).imp_right (List.mem_cons_of_mem _)

/-- Writing to a file makes no other file. -/
theorem not_isFile_of_write (bytes : List Nat) {p : String} (h : d.isFile p = false) (hp : p ≠ path) :
    isFile { d with texts := replace path bytes d.texts } p = false := by
  simp only [isFile, Bool.or_eq_false_iff, List.any_eq_false, decide_eq_true_eq] at h ⊢
  refine ⟨fun entry hentry => ?_, h.2⟩
  rcases mem_replace hentry with rfl | hentry
  · exact hp.symm
  · exact h.1 entry hentry

theorem not_isFolder_of_write (bytes : List Nat) (h : d.isFolder path = false) :
    isFolder { d with texts := replace path bytes d.texts } path = false := by
  simp only [isFolder, Bool.or_eq_false_iff, List.any_eq_false, List.contains_eq_mem,
    decide_eq_true_eq] at h ⊢
  refine ⟨h.1, fun p hp => ?_⟩
  rcases List.mem_append.mp hp with hp | hp
  · obtain ⟨entry, hentry, rfl⟩ := List.mem_map.mp hp
    rcases mem_replace hentry with rfl | hentry
    · exact notMem_around_self path
    · exact h.2 _ (List.mem_append_left _ (List.mem_map_of_mem hentry))
  · exact h.2 p (List.mem_append_right _ hp)

/-- What was written to a file is read from it, with the line ends of a file. -/
theorem readText_of_writeText (h : d.writeText path content = .ok e) :
    e.readText path = .ok (String.ofList (plainLines content.toList)) := by
  rw [writeText] at h
  split at h
  · cases h
  · rename_i hfolder
    split at h
    · cases h
    · rename_i haround
      split at h
      · cases h
        have hfolder := not_isFolder_of_write (encodeUtf8 content.toList)
          ((Bool.not_eq_true _).mp hfolder)
        have haround : ¬ (around path).any (isFile { d with
            texts := replace path (encodeUtf8 content.toList) d.texts }) = true := by
          simp only [List.any_eq_true, not_exists, not_and, Bool.not_eq_true] at haround ⊢
          exact fun p hp => not_isFile_of_write _ (haround p hp) fun heq =>
            notMem_around_self path (heq ▸ hp)
        rw [readText, hfolder, if_neg Bool.false_ne_true, if_neg haround]
        simp only [find?_replace, decodeUtf8_encodeUtf8]
      · cases h

end Disk

end Wireframe
