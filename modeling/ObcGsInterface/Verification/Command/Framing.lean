import ObcGsInterface.Library.NextFit
import ObcGsInterface.Verification.Command.Reader

/-! # Command framing

The frames of `command_multi_pack` are the groups of a next-fit grouping by wire size, and
`unpack_command` reads a group back from its frame. -/

namespace ObcGsInterface

open CArray Cursor

/-! ## Packing a command -/

/-- Packing a supported command gives its image. -/
theorem packCommand_eq {cmdMsg : CmdMsg} (h : cmdMsg.Supported) :
    packCommand cmdMsg = .ok cmdMsg.image := by
  have hshort := cmdMsg.length_image_le
  have hroom : (0 : Offset).toNat + cmdMsg.image.length ≤
      (List.replicate maxCmdMsgSize (0 : Byte)).length := by
    rw [List.length_replicate]
    exact (Nat.zero_add _).trans_le (hshort.trans (by decide))
  obtain ⟨packed, hpack, hspec⟩ := packCmdMsg_of_room h hroom 0
  have hoffset : packed.offset.toNat = cmdMsg.image.length := by
    rw [hspec.offset_eq, toNat_zero_add (by omega)]
  have himage := (holdsBytes_zero (by omega)).mp hspec.holds
  rw [packCommand, hpack, callC_ok, ok_bind, if_neg (by simp [hspec.err_eq]), hoffset, himage]
  rfl

/-! ## Reading a frame -/

/-- The images of the commands, one after another. -/
def images (group : List CmdMsg) : List Byte := group.flatMap CmdMsg.image

@[simp] theorem images_nil : images [] = [] := rfl

@[simp] theorem images_cons (cmdMsg : CmdMsg) (group : List CmdMsg) :
    images (cmdMsg :: group) = cmdMsg.image ++ images group := List.flatMap_cons

@[simp] theorem images_append (xs ys : List CmdMsg) : images (xs ++ ys) = images xs ++ images ys :=
  List.flatMap_append

/-- The reader returns the commands of a group whose images are followed by a zero byte. -/
theorem unpackCommandLoop_images (group : List CmdMsg) (h : ∀ cmdMsg ∈ group, cmdMsg.Supported)
    (front back : List Byte) (fuel : ℕ) (hfuel : group.length < fuel) (cmdMsgList : List CmdMsg) :
    ∃ unpacked,
      unpackCommandLoop (front ++ (images group ++ 0 :: back)) fuel 0 front.length cmdMsgList =
        .ok (cmdMsgList ++ unpacked, front.length + (images group).length) ∧
      List.Forall₂ CmdMsg.SameCommand unpacked group := by
  rw [unpackCommandLoop_eq]
  exact RecordReader.loop_images (readsWithin_unpackCmdMsg 0 CmdMsg.new) _ group
    (fun cmdMsg hcmd => commandReader_recovers (h cmdMsg hcmd)) front back fuel hfuel cmdMsgList

theorem length_le_length_images (group : List CmdMsg) : group.length ≤ (images group).length :=
  length_le_length_flatMap (fun _ => List.cons_ne_nil _ _) group

/-! ## Writing frames -/

/-- The frame of a group. -/
def frameOf (group : List CmdMsg) : List Byte := ljust (images group) rsDecodedDataSize

/-- The wire size of a command. -/
def wireSize (cmdMsg : CmdMsg) : ℕ := cmdMsg.image.length

/-- The groups in which commands travel: as many as leave the last byte of a frame free. -/
def commandGroups : List CmdMsg → List CmdMsg → List (List CmdMsg) :=
  NextFit.groups wireSize (rsDecodedDataSize - 1)

theorem total_wireSize (group : List CmdMsg) :
    NextFit.total wireSize group = (images group).length := by
  induction group with
  | nil => rfl
  | cons cmdMsg group ih => simp [ih, wireSize]

theorem images_eq_nil {group : List CmdMsg} : images group = [] ↔ group = [] := by
  cases group with
  | nil => simp
  | cons cmdMsg group => simp [CmdMsg.image]

/-- The loop of `command_multi_pack` fills the groups of a next-fit grouping. -/
theorem foldlM_commandMultiPackStep (group commands : List CmdMsg)
    (h : ∀ cmdMsg ∈ commands, cmdMsg.Supported) (commandList : List (List Byte)) :
    ∃ last list,
      commands.foldlM commandMultiPackStep (images group, commandList) =
        .ok (images last, list) ∧
      commandList ++ (commandGroups group commands).map frameOf =
        if last = [] then list else list ++ [frameOf last] := by
  induction commands generalizing group commandList with
  | nil =>
      refine ⟨group, commandList, rfl, ?_⟩
      by_cases hgroup : group = [] <;> simp [commandGroups, NextFit.groups, hgroup]
  | cons command commands ih =>
      have hcommands := fun c hc => h c (List.mem_cons_of_mem command hc)
      have hpack := packCommand_eq (h command (by simp))
      have hsize : NextFit.total wireSize group + wireSize command =
          (images group).length + command.image.length := by
        rw [total_wireSize, wireSize]
      rw [List.foldlM_cons, commandMultiPackStep]
      simp only [hpack, ok_bind]
      by_cases hfull : (images group).length + command.image.length > rsDecodedDataSize - 1
      · obtain ⟨last, list, hfold, hlist⟩ :=
          ih [command] hcommands (commandList ++ [frameOf group])
        refine ⟨last, list, ?_, ?_⟩
        · simpa [hfull, frameOf] using hfold
        · simpa [commandGroups, NextFit.groups, hsize, hfull] using hlist
      · obtain ⟨last, list, hfold, hlist⟩ := ih (group ++ [command]) hcommands commandList
        refine ⟨last, list, ?_, ?_⟩
        · simpa [hfull] using hfold
        · simpa [commandGroups, NextFit.groups, hsize, hfull] using hlist

theorem commandMultiPack_eq (commands : List CmdMsg)
    (h : ∀ cmdMsg ∈ commands, cmdMsg.Supported) :
    commandMultiPack commands = .ok ((commandGroups [] commands).map frameOf) := by
  obtain ⟨last, list, hfold, hlist⟩ := foldlM_commandMultiPackStep [] commands h []
  rw [List.nil_append] at hlist
  rw [images_nil] at hfold
  rw [commandMultiPack, hfold, ok_bind, hlist]
  by_cases hlast : last = [] <;> simp [hlast, images_eq_nil, frameOf]

/-! ## Frames -/

/-- The frame of a group: whole images only, a zero byte at the end, and the reader gets
the commands back and leaves zeros. -/
structure FrameSpec (group : List CmdMsg) (frame : List Byte) : Prop where
  nonempty : group ≠ []
  bytes_eq : ∃ padding, frame = images group ++ List.replicate padding 0
  length_eq : frame.length = rsDecodedDataSize
  last_eq : frame.getLast? = some 0
  unpacked : ∃ cmdMsgList rest, unpackCommand frame = .ok (cmdMsgList, rest) ∧
    List.Forall₂ CmdMsg.SameCommand cmdMsgList group ∧ ∀ byte ∈ rest, byte = 0

theorem frameOf_spec {group : List CmdMsg} (hnonempty : group ≠ [])
    (h : ∀ cmdMsg ∈ group, cmdMsg.Supported)
    (hsize : (images group).length ≤ rsDecodedDataSize - 1) : FrameSpec group (frameOf group) := by
  have hsize : (images group).length ≤ 222 := hsize
  obtain ⟨n, hn⟩ : ∃ n, rsDecodedDataSize - (images group).length = n + 1 :=
    Nat.exists_eq_succ_of_ne_zero (by simp only [rsDecodedDataSize]; omega)
  have hframe : frameOf group = images group ++ 0 :: List.replicate n 0 := by
    rw [frameOf, ljust, hn, List.replicate_succ]
  have hlength : (frameOf group).length = rsDecodedDataSize := by
    rw [hframe]
    simp
    omega
  have hcount := length_le_length_images group
  obtain ⟨cmdMsgList, hloop, hsame⟩ := unpackCommandLoop_images group h [] (List.replicate n 0)
    ((frameOf group).length + 1) (by rw [hlength]; simp only [rsDecodedDataSize]; omega) []
  exact
    { nonempty := hnonempty
      bytes_eq := ⟨n + 1, hframe⟩
      length_eq := hlength
      last_eq := by
        rw [hframe, ← List.replicate_succ]
        simp [List.getLast?_append, List.getLast?_replicate]
      unpacked := by
        refine ⟨cmdMsgList, 0 :: List.replicate n 0, ?_, hsame, ?_⟩
        · rw [hframe] at hlength hloop
          rw [List.nil_append, List.length_nil, Nat.zero_add, List.nil_append] at hloop
          rw [unpackCommand, hframe, if_neg (by omega), hloop]
          simp
        · simp }

/-- Reading the frames one after another gives the commands of all groups. -/
theorem mapM_unpackCommand {groups : List (List CmdMsg)}
    (h : ∀ group ∈ groups, FrameSpec group (frameOf group)) :
    ∃ results, (groups.map frameOf).mapM unpackCommand = .ok results ∧
      List.Forall₂ CmdMsg.SameCommand (results.flatMap Prod.fst) groups.flatten ∧
      ∀ result ∈ results, ∀ byte ∈ result.2, byte = 0 := by
  induction groups with
  | nil => exact ⟨[], rfl, List.Forall₂.nil, by simp⟩
  | cons group groups ih =>
      obtain ⟨cmdMsgList, rest, hunpack, hsame, hzero⟩ := (h group (by simp)).unpacked
      obtain ⟨results, hresults, hsames, hzeros⟩ :=
        ih fun g hg => h g (List.mem_cons_of_mem group hg)
      refine ⟨(cmdMsgList, rest) :: results, ?_, ?_, ?_⟩
      · rw [List.map_cons, List.mapM_cons, hunpack, ok_bind, hresults]
        rfl
      · simpa using List.rel_append hsame hsames
      · exact List.forall_mem_cons.mpr ⟨hzero, hzeros⟩

/-- The frames of a list of commands are those of consecutive groups of it: no group is
empty, no command is split, every frame is read back to its group, and the first command of
a group would not have fitted into the frame before it. -/
structure FramingSpec (commands : List CmdMsg) (frames : List (List Byte))
    (groups : List (List CmdMsg)) (results : List (List CmdMsg × List Byte)) : Prop where
  framed : commandMultiPack commands = .ok frames
  image_eq : ∀ cmdMsg ∈ commands, packCommand cmdMsg = .ok cmdMsg.image
  flatten_eq : groups.flatten = commands
  frames_spec : List.Forall₂ FrameSpec groups frames
  maximal : groups.IsChain fun group next => ∃ cmdMsg tail, next = cmdMsg :: tail ∧
    (images group).length + cmdMsg.image.length > rsDecodedDataSize - 1
  unpacked : frames.mapM unpackCommand = .ok results
  recovered : List.Forall₂ CmdMsg.SameCommand (results.flatMap Prod.fst) commands
  left_over : ∀ result ∈ results, ∀ byte ∈ result.2, byte = 0

/-- **Framing loses no command**, whatever the mix of sizes. -/
theorem command_framing (commands : List CmdMsg) (h : ∀ cmdMsg ∈ commands, cmdMsg.Supported) :
    ∃ frames groups results, FramingSpec commands frames groups results := by
  have hitems : ∀ cmdMsg ∈ commands, wireSize cmdMsg ≤ rsDecodedDataSize - 1 := by
    intro cmdMsg _
    exact cmdMsg.length_image_le.trans (by decide)
  have hflatten : (commandGroups [] commands).flatten = commands :=
    NextFit.flatten_groups wireSize _ [] commands
  have hspecs : ∀ group ∈ commandGroups [] commands, FrameSpec group (frameOf group) := by
    intro group hgroup
    refine frameOf_spec (NextFit.ne_nil_of_mem_groups hitems group hgroup) ?_ ?_
    · intro cmdMsg hcmd
      exact h cmdMsg (hflatten ▸ List.mem_flatten_of_mem hgroup hcmd)
    · rw [← total_wireSize]
      exact NextFit.total_le_of_mem_groups (Nat.zero_le _) hitems group hgroup
  obtain ⟨results, hresults, hsame, hzero⟩ := mapM_unpackCommand hspecs
  refine ⟨(commandGroups [] commands).map frameOf, commandGroups [] commands, results, ?_⟩
  exact
    { framed := commandMultiPack_eq commands h
      image_eq := fun cmdMsg hcmd => packCommand_eq (h cmdMsg hcmd)
      flatten_eq := hflatten
      frames_spec := by
        rw [List.forall₂_map_right_iff, List.forall₂_same]
        exact hspecs
      maximal := by
        refine (NextFit.full_groups [] commands).imp ?_
        rintro group next ⟨cmdMsg, tail, hnext, hfull⟩
        exact ⟨cmdMsg, tail, hnext, by rwa [← total_wireSize]⟩
      unpacked := hresults
      recovered := hflatten ▸ hsame
      left_over := hzero }

/-- Nineteen commands of 12 bytes each need a second frame. -/
theorem command_framing_sampleDownload :
    ∃ frames groups results,
      FramingSpec (List.replicate 19 sampleDownload) frames groups results :=
  command_framing _ fun cmdMsg hcmd => by
    rw [List.eq_of_mem_replicate hcmd]
    exact ⟨by decide, by decide, by decide⟩

end ObcGsInterface
