import Mathlib.Data.List.Forall2
import PmacPoll.Proofs.RefreshFromDevice

/-!
# Commands that fit into their frame

A command is limited to forty names, its frame to so many bytes. The frame carries the front of the
command whatever its size, and all of it just if the names and the spaces between them do not take
more than one payload: `Arrives`. So it is for names of at most 36 bytes, which is what forty of
them and the spaces leave room for.

With longer names a command can be cut within a name, and what is left of it may be the name of
something else: `crowdedTable`.
-/

namespace PmacPoll.VariableTable

/-- The size in bytes of some names with a space between neighbours. -/
def joinedSize : List String → Nat
  | [] => 0
  | [name] => (Utf8.encode name).length
  | name :: more => (Utf8.encode name).length + 1 + joinedSize more

/-- What there is of the command for some names at the other end. -/
structure Arrives (chunk : List String) (command : String) : Prop where
  /-- One frame is read off what is written. -/
  decoded : Frame.decode (Frame.command (Utf8.encode command)).encode =
    .ok (some (Frame.command (Utf8.encode command), []))
  /-- It carries the front of the command, as far as there is room in a payload. -/
  front : (Frame.command (Utf8.encode command)).payload =
    (Utf8.encode command).take Frame.maxPayload
  /-- It carries all of it just if the names leave room for it. -/
  whole : (Frame.command (Utf8.encode command)).payload = Utf8.encode command ↔
    joinedSize chunk ≤ Frame.maxPayload
  /-- Then the command is heard as it was sent, and asks for these names and no others. -/
  heard : joinedSize chunk ≤ Frame.maxPayload → Device.heard (Utf8.encode command) = command ∧
    Text.words (Device.heard (Utf8.encode command)) = chunk.filter (· ≠ "")
  /-- Short names always leave room. -/
  short : (∀ name ∈ chunk, (Utf8.encode name).length ≤ 36) →
    joinedSize chunk ≤ Frame.maxPayload

/-! ### The size of a command -/

/-- A command is as long as its names and the spaces between them. -/
private theorem length_encode_unwords (names : List String) :
    (Utf8.encode (Text.unwords names)).length = joinedSize names := by
  -- the last name has no space after it
  induction names with
  | nil => rfl
  | cons name more ih =>
    cases more with
    | nil => rfl
    | cons other more =>
      have hjoin : Text.unwords (name :: other :: more) =
          name ++ " " ++ Text.unwords (other :: more) := rfl
      have hspace : (Utf8.encode " ").length = 1 := rfl
      rw [hjoin, Utf8.encode_append, Utf8.encode_append, List.length_append, List.length_append,
        ih, hspace]
      rfl

/-- Names of a bounded size, with a space for each, bound the size of their command. -/
private theorem joinedSize_le {names : List String} {size : Nat}
    (h : ∀ name ∈ names, (Utf8.encode name).length ≤ size) :
    joinedSize names ≤ names.length * (size + 1) := by
  induction names with
  | nil => exact Nat.zero_le _
  | cons name more ih =>
    have hname := h name List.mem_cons_self
    have hmore := ih fun n hn => h n (List.mem_cons_of_mem name hn)
    rw [List.length_cons, Nat.succ_mul]
    -- the space behind a name is counted also where there is none
    cases more with
    | nil =>
      rw [joinedSize]
      omega
    | cons other more =>
      have hjoin : joinedSize (name :: other :: more) =
          (Utf8.encode name).length + 1 + joinedSize (other :: more) := rfl
      rw [hjoin]
      omega

/-! ### The words of a command -/

/-- Names without blanks are the words of their command, but for the empty one. -/
private theorem words_unwords_of_unblank {names : List String}
    (h : ∀ name ∈ names, ∀ c ∈ name.toList, Text.isBlank c = false) :
    Text.words (Text.unwords names) = names.filter (· ≠ "") := by
  rw [Text.words_unwords_eq_flatMap]
  induction names with
  | nil => rfl
  | cons name more ih =>
    rw [List.flatMap_cons, ih fun n hn => h n (List.mem_cons_of_mem name hn),
      Text.words_of_unblank (h name List.mem_cons_self), List.filter_cons]
    by_cases hempty : name = "" <;> simp [hempty]

/-! ### Arriving -/

/-- A command of few names without blanks arrives as said. -/
private theorem arrives_unwords {chunk : List String} (hlength : chunk.length ≤ maxNames)
    (h : ∀ name ∈ chunk, ∀ c ∈ name.toList, Text.isBlank c = false) :
    Arrives chunk (Text.unwords chunk) := by
  have hsize := length_encode_unwords chunk
  refine ⟨?_, rfl, ?_, fun hfits => ?_, fun hshort => ?_⟩
  · exact Frame.decode_encode_alone (Frame.complete_command _)
  · rw [← hsize]
    refine ⟨fun hall => ?_, List.take_of_length_le⟩
    rw [← hall]
    exact List.length_take_le ..
  · -- a command that fits is heard as it was sent
    have hheard := Device.heard_encode (Nat.le_trans (Nat.le_of_eq hsize) hfits)
    rw [hheard]
    exact ⟨rfl, words_unwords_of_unblank h⟩
  · have hle := joinedSize_le hshort
    unfold maxNames at hlength
    unfold Frame.maxPayload
    omega

variable {t : VariableTable}

/-- **Commands arrive in full or cut at the end.** However a table came about, if its names have no
    blanks, then each of its commands arrives, and it arrives whole just if its names leave room for
    it in one frame. -/
theorem commands_arrive (h : t.Built)
    (hnames : ∀ name ∈ t.names, ∀ c ∈ name.toList, Text.isBlank c = false) :
    List.Forall₂ Arrives (chunksOf maxNames t.names) t.commands := by
  rw [(kept_of_built h).commands, List.forall₂_map_right_iff, List.forall₂_same]
  intro chunk hchunk
  refine arrives_unwords (length_le_of_mem_chunksOf (by decide) hchunk) fun name hname => ?_
  refine hnames name ?_
  rw [← flatten_chunksOf maxNames t.names]
  exact List.mem_flatten_of_mem hchunk hname

/-- Two names with the empty one between them. -/
theorem commands_arrive_spaced :
    (∀ name ∈ (empty.addAll ["P1", "", "P2"]).names,
      ∀ c ∈ name.toList, Text.isBlank c = false) ∧
    List.Forall₂ Arrives (chunksOf maxNames (empty.addAll ["P1", "", "P2"]).names)
      (empty.addAll ["P1", "", "P2"]).commands := by
  have hnames : (empty.addAll ["P1", "", "P2"]).names = ["P1", "", "P2"] :=
    names_addAll kept_empty (by decide)
  have hblank : ∀ name ∈ (empty.addAll ["P1", "", "P2"]).names,
      ∀ c ∈ name.toList, Text.isBlank c = false := by
    have hall : ["P1", "", "P2"].all (fun name => name.toList.all (!Text.isBlank ·)) = true := rfl
    intro name hname
    rw [hnames] at hname
    simpa using List.all_eq_true.mp hall name hname
  exact ⟨hblank, commands_arrive (Built.empty.addAll _) hblank⟩

/-! ### A command that is cut -/

/-- A name that nearly fills a frame, and one behind it of which the last digit does not go in. -/
def crowdedTable : VariableTable :=
  empty.addAll [String.ofList (List.replicate 1489 'X'), "P12"]

/-- Behind a name of 1489 bytes there is room for a space and for two of the three digits. -/
private theorem payload_of_long {name : String} (h : (Utf8.encode name).length = 1489) :
    (Frame.command (Utf8.encode (name ++ " " ++ "P12"))).payload =
      Utf8.encode (name ++ " " ++ "P1") := by
  have hbytes : Utf8.encode (name ++ " " ++ "P12") =
      Utf8.encode (name ++ " " ++ "P1") ++ [0x32] := by
    simp only [Utf8.encode_append, List.append_assoc]
    rfl
  have hroom : (Utf8.encode (name ++ " " ++ "P1")).length = Frame.maxPayload := by
    rw [Utf8.encode_append, Utf8.encode_append, List.length_append, List.length_append, h]
    rfl
  change (Utf8.encode (name ++ " " ++ "P12")).take Frame.maxPayload = _
  rw [hbytes, ← hroom, List.take_left]

/-- The names are words, and yet their command is cut, and then it asks for `P1`. -/
theorem crowdedTable_cut : (∀ name ∈ crowdedTable.names, Text.IsWord name) ∧
    ∃ command ∈ crowdedTable.commands, ∃ frame,
      Frame.decode (Frame.command (Utf8.encode command)).encode = .ok (some (frame, [])) ∧
      frame.payload ≠ Utf8.encode command ∧
      "P1" ∈ Text.words (Utf8.decode frame.payload) ∧ "P1" ∉ crowdedTable.names := by
  have hlength : (Utf8.encode (String.ofList (List.replicate 1489 'X'))).length = 1489 := by
    have hchar : (String.utf8EncodeChar 'X').length = 1 := rfl
    rw [Utf8.encode, String.toList_ofList, List.length_flatMap, List.map_replicate, hchar,
      List.sum_replicate_nat]
  have hword : Text.IsWord (String.ofList (List.replicate 1489 'X')) := by
    refine ⟨fun hempty => ?_, fun c hc => ?_⟩
    · rw [String.ofList_eq_empty_iff] at hempty
      simp at hempty
    · rw [String.toList_ofList] at hc
      rw [List.eq_of_mem_replicate hc]
      decide
  generalize hlong : String.ofList (List.replicate 1489 'X') = long at hlength hword
  have hshort : ∀ name : String, (Utf8.encode name).length < 1489 → long ≠ name := by
    rintro name hname rfl
    omega
  obtain ⟨hnames, hcommands⟩ := addAll_pair (hshort "P12" (by decide))
  have hpayload := payload_of_long hlength
  rw [crowdedTable, hlong, hnames, hcommands]
  refine ⟨?_, long ++ " " ++ "P12", List.mem_singleton_self _, _,
    Frame.decode_encode_alone (Frame.complete_command _), ?_, ?_, ?_⟩
  · intro name hname
    rcases List.mem_pair.mp hname with rfl | rfl
    · exact hword
    · decide
  · -- the payload lacks the end of the second name
    rw [hpayload]
    intro heq
    have hwords := congrArg (fun bytes => Text.words (Utf8.decode bytes)) heq
    simp only [Utf8.decode_encode, Text.words_append_space, List.append_cancel_left_eq] at hwords
    exact absurd hwords (by decide)
  · rw [hpayload, Utf8.decode_encode, Text.words_append_space]
    exact List.mem_append_right _ (by decide)
  · -- what is left of it is the name of nothing in the table
    intro hmem
    rcases List.mem_pair.mp hmem with heq | heq
    · exact hshort "P1" (by decide) heq.symm
    · exact absurd heq (by decide)

end PmacPoll.VariableTable
