import TournamentScoring.Proofs.Json.Reading

/-!
# Texts over several lines are read back

The line breaks and the spaces at the start of a line stand where the reader skips
space, so a value is read from its text over several lines as it is from its compact
text.
-/

namespace TournamentScoring.Json

open TournamentScoring.Document

/-! ## Lines -/

theorem allSpace_newLine (level : Nat) : AllSpace (newLine level) := by
  intro character hmem
  rcases List.mem_cons.mp hmem with rfl | hmem
  · rfl
  · rw [(List.mem_replicate.mp hmem).2]
    rfl

theorem allSpace_blank : AllSpace [' '] :=
  List.forall_mem_singleton.mpr rfl

/-! ## Values -/

mutual

theorem reads_prettyText (level : Nat) :
    ∀ value : Json, Readable value →
      Reads (prettyText level value) (Source.ofJson value.asWritten)
  | .null, _ => reads_null
  | .boolean value, _ => reads_boolean value
  | .integer _, hvalue => reads_integer hvalue
  | .float value, _ => reads_ofFloat value
  | .text content, _ => reads_text content
  | .array [], _ => reads_empty_array
  | .array (item :: items), hitems => by
    obtain ⟨body, hbody, hread⟩ := exists_body_of_items (level + 1) level
      (item :: items) (List.cons_ne_nil _ _) hitems
    have htext : prettyText level (.array (item :: items)) =
        '[' :: (newLine (level + 1) ++ ((body ++ newLine level) ++ [']'])) := by
      rw [prettyText, hbody]
      · simp only [List.append_assoc]
      · exact List.cons_ne_nil _ _
    rw [htext]
    exact hread.reads_array_spaced (allSpace_newLine _)
  | .object [], _ => reads_empty_object
  | .object (member :: members), hmembers => by
    obtain ⟨body, hbody, hread⟩ := exists_body_of_members (level + 1) level
      (member :: members) (List.cons_ne_nil _ _) hmembers
    have htext : prettyText level (.object (member :: members)) =
        '\x7b' :: (newLine (level + 1) ++ ((body ++ newLine level) ++ ['\x7d'])) := by
      rw [prettyText, hbody]
      · simp only [List.append_assoc]
      · exact List.cons_ne_nil _ _
    rw [htext]
    exact hread.reads_object_spaced (allSpace_newLine _)

/-- The items start on a line of their own, and the closing bracket stands on the
line after them. -/
theorem exists_body_of_items (level closing : Nat) :
    ∀ items : List Json, items ≠ [] → ReadableItems items →
      ∃ body, prettyItems level items = newLine level ++ body ∧
        ReadsItems (body ++ newLine closing) (Source.ofItems (itemsAsWritten items))
  | [], hne, _ => absurd rfl hne
  | [item], _, hitems => by
    have hitem := reads_prettyText level item hitems.1
    exact ⟨prettyText level item, rfl, hitem.single_spaced (allSpace_newLine closing)⟩
  | item :: next :: items, _, hitems => by
    have hitem := reads_prettyText level item hitems.1
    obtain ⟨body, hbody, hread⟩ := exists_body_of_items level closing (next :: items)
      (List.cons_ne_nil _ _) hitems.2
    refine ⟨prettyText level item ++ ',' :: (newLine level ++ body), ?_, ?_⟩
    · rw [prettyItems, hbody]
      · exact List.append_assoc _ _ _
      · exact List.cons_ne_nil _ _
    · rw [List.append_assoc, List.cons_append, List.append_assoc]
      exact hread.cons_spaced hitem (allSpace_newLine level)

/-- The members start on a line of their own, and the closing brace stands on the
line after them. -/
theorem exists_body_of_members (level closing : Nat) :
    ∀ members : List (String × Json), members ≠ [] → ReadableMembers members →
      ∃ body, prettyMembers level members = newLine level ++ body ∧
        ReadsMembers (body ++ newLine closing)
          (Source.ofMembers (membersAsWritten members))
  | [], hne, _ => absurd rfl hne
  | [(key, value)], _, hmembers => by
    have hvalue := reads_prettyText level value hmembers.1
    refine ⟨quoted key ++ ':' :: ' ' :: prettyText level value, ?_, ?_⟩
    · exact List.append_assoc _ _ _
    · rw [List.append_assoc]
      exact hvalue.single_member_spaced key allSpace_blank (allSpace_newLine closing)
  | (key, value) :: next :: members, _, hmembers => by
    have hvalue := reads_prettyText level value hmembers.1
    obtain ⟨body, hbody, hread⟩ := exists_body_of_members level closing
      (next :: members) (List.cons_ne_nil _ _) hmembers.2
    refine ⟨quoted key ++ ':' :: ' ' ::
      (prettyText level value ++ ',' :: (newLine level ++ body)), ?_, ?_⟩
    · rw [prettyMembers, hbody]
      · exact List.append_assoc _ _ _
      · exact List.cons_ne_nil _ _
    · simp only [List.append_assoc, List.cons_append]
      exact hread.cons_spaced key hvalue allSpace_blank (allSpace_newLine level)

end

/-- Reading the text of a value over several lines gives what was written. -/
theorem read_pretty {value : Json} (hvalue : Readable value) :
    read value.pretty = ⟨Source.ofJson value.asWritten, false⟩ :=
  (reads_prettyText 0 value hvalue).read_eq

end TournamentScoring.Json
