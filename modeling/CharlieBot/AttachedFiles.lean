import CharlieBot.MessageEvents
import CharlieBot.Lib.TextLines

/-!
# The footer that lists attached files

The agent is told of a message's attachments by a footer: a marker behind
the content, and a line `- path` for each of them. The reader of a history
takes such a footer off again, and shows its paths as attachments.

The two do not fit together everywhere. The lines are joined by line feeds
and split wherever `splitlines` ends a line, which is at nine characters
more, and a file name may hold any of them; the reader strips the blanks a
file name may end with; and a message without attachments is written as it
is, so that one that ends in what looks like a footer loses it.
**Everywhere else content and paths are recovered**, whatever else the
content holds (`recovered_iff`): a footer's lines begin with a dash, so the
marker that leads it is the last one (`length_le_of_marker`), even where
the content ends in half of another.
-/

open MessageEvents

namespace AttachedFiles

/-! ## Uploads -/

/-- `Path(s).name`: the last component that is neither empty nor a dot. -/
def pathName (s : List Char) : List Char :=
  ((Text.splitOnChar '/' s).filter fun c => c ≠ [] ∧ c ≠ ['.']).getLastD []

/-- **The directory of a session's uploads**, resolved. -/
structure UploadsDir where
  chars : List Char
  absolute : chars.head? = some '/'

/-- Where `upload_file` stores a file it is sent under a name; `none` where
the file cannot be opened. -/
def uploadFile (dir : UploadsDir) (filename : List Char) : Option (List Char) :=
  let name := pathName (if filename.isEmpty then "upload".toList else filename)
  if name = [] ∨ name = ['.', '.'] ∨ '\x00' ∈ name then none
  else some (dir.chars ++ '/' :: name)

/-- **An upload.** -/
structure Upload (dir : UploadsDir) where
  /-- The name it was sent under. -/
  filename : List Char
  path : List Char
  stored : uploadFile dir filename = some path

namespace Upload

variable {dir : UploadsDir}

/-- The upload as a message refers to it. -/
def file (u : Upload dir) : Dict :=
  [("filename", .str (String.ofList u.filename)), ("path", .str (String.ofList u.path))]

/-- The attachment a history shows for it. -/
def attachment (u : Upload dir) : Json := fileOfPath (String.ofList u.path)

end Upload

def agentPaths (uploadedFiles : List Dict) : List (List Char) :=
  (uploadedFiles.map fun f => Text.strip (f.getD "path" (.str "")).toText.toList).filter
    fun path => !path.isEmpty

def footerLine (path : List Char) : List Char := '-' :: ' ' :: path

def footer (paths : List (List Char)) : List Char :=
  Text.join ['\n'] (paths.map footerLine)

/-- **The message the agent sees**: the content, and behind it the paths of
the attachments. -/
def buildAgentInputContent (content : String) (uploadedFiles : List Dict) : String :=
  let paths := agentPaths uploadedFiles
  if paths.isEmpty then content
  else String.ofList (content.toList ++ attachedFilesMarker ++ footer paths)

/-! ## Lines of a footer -/

/-- A line that names an attachment. -/
def IsFooterLine (line : List Char) : Prop :=
  ∃ path, line = footerLine path ∧ Text.strip path ≠ []

/-- **A path that fits on a line of its own**: no line ends in it, and no
blank at its end. -/
def FitsLine (path : List Char) : Prop :=
  (∀ c ∈ path, Text.isLineBreak c = false) ∧ ∀ c ∈ path.getLast?, Text.isSpace c = false

/-- **A content that ends in a footer** of its own. -/
def EndsInFooter (content : List Char) : Prop :=
  ∃ body block, content = body ++ attachedFilesMarker ++ block ∧
    ∀ line ∈ Text.splitLines block, IsFooterLine line

theorem marker_ne_nil : attachedFilesMarker ≠ [] := by decide

/-- The attachment a line names. -/
def lineFile (line : List Char) : Option Json :=
  if "- ".toList.isPrefixOf line then
    let path := Text.strip (line.drop 2)
    if path.isEmpty then none else some (fileOfPath (String.ofList path))
  else none

theorem footerFiles_eq (block : List Char) :
    footerFiles block = (Text.splitLines block).mapM lineFile := rfl

theorem lineFile_footerLine (path : List Char) :
    lineFile (footerLine path) = if (Text.strip path).isEmpty then none
      else some (fileOfPath (String.ofList (Text.strip path))) := rfl

theorem exists_of_lineFile {line : List Char} {file : Json} (h : lineFile line = some file) :
    ∃ path, line = footerLine path ∧ Text.strip path ≠ []
      ∧ file = fileOfPath (String.ofList (Text.strip path)) := by
  unfold lineFile at h
  by_cases hpre : "- ".toList.isPrefixOf line = true
  · rw [if_pos hpre] at h
    obtain ⟨path, rfl⟩ := List.isPrefixOf_iff_prefix.mp hpre
    change (if (Text.strip path).isEmpty then none
      else some (fileOfPath (String.ofList (Text.strip path)))) = some file at h
    by_cases hempty : (Text.strip path).isEmpty = true
    · rw [if_pos hempty] at h
      cases h
    · rw [if_neg hempty] at h
      cases h
      exact ⟨path, rfl, fun hnil => hempty (List.isEmpty_iff.mpr hnil), rfl⟩
  · rw [if_neg hpre] at h
    cases h

theorem IsFooterLine.exists_file {line : List Char} (h : IsFooterLine line) :
    ∃ file, lineFile line = some file := by
  obtain ⟨path, rfl, hne⟩ := h
  rw [lineFile_footerLine, if_neg fun hempty => hne (List.isEmpty_iff.mp hempty)]
  exact ⟨_, rfl⟩

theorem exists_footerFiles {block : List Char}
    (h : ∀ line ∈ Text.splitLines block, IsFooterLine line) :
    ∃ files, footerFiles block = some files := by
  rw [footerFiles_eq]
  generalize Text.splitLines block = lines at h
  induction lines with
  | nil => exact ⟨[], rfl⟩
  | cons line lines ih =>
    obtain ⟨file, hfile⟩ := (h line List.mem_cons_self).exists_file
    obtain ⟨files, hfiles⟩ := ih fun l hl => h l (List.mem_cons_of_mem _ hl)
    exact ⟨file :: files, by rw [List.mapM_cons, hfile, hfiles]; rfl⟩

/-- **What a block lists are paths that fit on a line**, and the block is
made of a footer's lines. -/
theorem of_footerFiles {block : List Char} {files : List Json}
    (h : footerFiles block = some files) :
    (∀ line ∈ Text.splitLines block, IsFooterLine line) ∧
      ∀ file ∈ files, ∃ path, FitsLine path ∧ file = fileOfPath (String.ofList path) := by
  rw [footerFiles_eq] at h
  have hclean : ∀ line ∈ Text.splitLines block, ∀ c ∈ line, Text.isLineBreak c = false :=
    fun line hline => Text.isLineBreak_eq_false_of_mem hline
  generalize Text.splitLines block = lines at h hclean
  induction lines generalizing files with
  | nil =>
    cases h
    exact ⟨fun _ hl => absurd hl List.not_mem_nil, fun _ hf => absurd hf List.not_mem_nil⟩
  | cons line lines ih =>
    rw [List.mapM_cons] at h
    obtain ⟨file, hfile, h⟩ := Option.bind_eq_some_iff.mp h
    obtain ⟨files', hfiles, h⟩ := Option.bind_eq_some_iff.mp h
    cases h
    obtain ⟨path, rfl, hne, rfl⟩ := exists_of_lineFile hfile
    obtain ⟨hlines, hpaths⟩ := ih hfiles fun l hl => hclean l (List.mem_cons_of_mem _ hl)
    refine ⟨List.forall_mem_cons.mpr ⟨⟨path, rfl, hne⟩, hlines⟩,
      List.forall_mem_cons.mpr ⟨⟨_, ⟨fun c hc => ?_, (Text.trimmed_strip path).2⟩, rfl⟩, hpaths⟩⟩
    exact hclean _ List.mem_cons_self c
      (List.mem_cons_of_mem _ (List.mem_cons_of_mem _ (Text.mem_of_mem_strip hc)))

/-! ## The last marker -/

theorem not_infix_of_footer {block : List Char}
    (h : ∀ line ∈ Text.splitLines block, IsFooterLine line) :
    ¬ ['\n', '\n'] <:+: '\n' :: block := by
  have hnil : [] ∉ Text.splitLines block := fun hmem => by
    obtain ⟨path, hpath, -⟩ := h [] hmem
    cases hpath
  intro hblank
  rcases List.infix_cons_iff.mp hblank with hpre | hblank
  · obtain ⟨rest, hrest⟩ := (List.cons_prefix_cons.mp hpre).2
    rw [← hrest] at hnil
    exact hnil List.mem_cons_self
  · exact hnil (Text.nil_mem_splitLinesAux [] hblank)

theorem infix_of_append {text rest : List Char} (h : '\n' ∉ text)
    (hblank : ['\n', '\n'] <:+: text ++ rest) : ['\n', '\n'] <:+: rest := by
  induction text with
  | nil => exact hblank
  | cons c text ih =>
    rw [List.mem_cons, not_or] at h
    rcases List.infix_cons_iff.mp hblank with hpre | hblank
    · exact absurd (List.cons_prefix_cons.mp hpre).1 h.1
    · exact ih h.2 hblank

/-- **The marker before a footer is the last one.** -/
theorem length_le_of_marker {body block body' block' : List Char}
    (h : ∀ line ∈ Text.splitLines block, IsFooterLine line)
    (heq : body ++ attachedFilesMarker ++ block = body' ++ attachedFilesMarker ++ block') :
    body'.length ≤ body.length := by
  by_contra hgt
  rw [Nat.not_le] at hgt
  rw [List.append_assoc, List.append_assoc] at heq
  obtain ⟨between, rfl⟩ : ∃ between, body' = body ++ between := by
    have hpre : body <+: body' :=
      List.prefix_of_prefix_length_le ⟨_, heq⟩ ⟨_, rfl⟩ (Nat.le_of_lt hgt)
    obtain ⟨between, hbetween⟩ := hpre
    exact ⟨between, hbetween.symm⟩
  rw [List.append_assoc] at heq
  have hmarkers := List.append_cancel_left heq
  cases between with
  | nil =>
    rw [List.append_nil] at hgt
    exact absurd hgt (Nat.lt_irrefl _)
  | cons c between =>
    -- the later marker begins with an empty line
    have hblank : ['\n', '\n'] <:+: '\n' :: "[Attached files]".toList ++ '\n' :: block :=
      ⟨between, "[Attached files]\n".toList ++ block', by
        rw [List.append_assoc]
        exact ((List.cons.inj hmarkers).2).symm⟩
    have hchars : '\n' ∉ "[Attached files]".toList := by decide
    refine not_infix_of_footer h (infix_of_append hchars ?_)
    rcases List.infix_cons_iff.mp hblank with hpre | hblank
    · exact absurd (List.cons_prefix_cons.mp (List.cons_prefix_cons.mp hpre).2).1 (by decide)
    · exact hblank

/-! ## Taking the footer off -/

/-- **A footer is taken off** and its paths are the attachments. -/
theorem strip_footer (body : List Char) {block : List Char} {files : List Json}
    (h : footerFiles block = some files) :
    stripAttachedFilesBlock (.str (String.ofList (body ++ attachedFilesMarker ++ block)))
      = some (.str (String.ofList body), files) := by
  have hlast := Text.rpartition_of_last marker_ne_nil body block
    fun body' block' heq => length_le_of_marker (of_footerFiles h).1 heq
  unfold stripAttachedFilesBlock
  dsimp only
  rw [String.toList_ofList, hlast]
  dsimp only
  rw [h]

/-- **A content that ends in no footer stays as it is.** -/
theorem strip_of_not_endsInFooter {content : String} (h : ¬ EndsInFooter content.toList) :
    stripAttachedFilesBlock (.str content) = some (.str content, []) := by
  unfold stripAttachedFilesBlock
  dsimp only
  cases hfound : Text.rpartition attachedFilesMarker content.toList with
  | none => rfl
  | some found =>
    obtain ⟨body, block⟩ := found
    dsimp only
    cases hfiles : footerFiles block with
    | none => rfl
    | some files =>
      exact absurd ⟨body, block, (Text.rpartition_eq_some marker_ne_nil hfound).1,
        (of_footerFiles hfiles).1⟩ h

/-- **What is taken off are paths that fit on a line.** -/
theorem fitsLine_of_strip {content : String} {rest : Json} {files : List Json}
    (h : stripAttachedFilesBlock (.str content) = some (rest, files)) :
    ∀ file ∈ files, ∃ path, FitsLine path ∧ file = fileOfPath (String.ofList path) := by
  unfold stripAttachedFilesBlock at h
  dsimp only at h
  split at h
  · cases h
    exact fun _ hf => absurd hf List.not_mem_nil
  · split at h
    · cases h
      exact fun _ hf => absurd hf List.not_mem_nil
    · next hfiles =>
      cases h
      exact (of_footerFiles hfiles).2

theorem strip_ne_of_endsInFooter {content : String} (h : EndsInFooter content.toList)
    (files : List Json) :
    stripAttachedFilesBlock (.str content) ≠ some (.str content, files) := by
  obtain ⟨body, block, hcontent, hlines⟩ := h
  obtain ⟨files', hfiles⟩ := exists_footerFiles hlines
  have hstrip := strip_footer body hfiles
  rw [← hcontent, String.ofList_toList] at hstrip
  rw [hstrip]
  intro heq
  have hbody := Json.str.inj (Prod.mk.inj (Option.some.inj heq)).1
  rw [← hbody, String.toList_ofList, List.append_assoc] at hcontent
  have hlen := congrArg List.length hcontent
  have hmarker : 0 < attachedFilesMarker.length := by decide
  rw [List.length_append, List.length_append] at hlen
  omega

/-! ## Content and paths are recovered -/

variable {dir : UploadsDir}

theorem Upload.head?_path (u : Upload dir) : u.path.head? = some '/' := by
  have h := u.stored
  unfold uploadFile at h
  generalize pathName (if u.filename.isEmpty then "upload".toList else u.filename) = name at h
  dsimp only at h
  split at h
  · cases h
  · rw [← Option.some.inj h, List.head?_append, dir.absolute]
    rfl

theorem Upload.isEmpty_path (u : Upload dir) : u.path.isEmpty = false := by
  have hhead := u.head?_path
  cases hnil : u.path with
  | nil =>
    rw [hnil] at hhead
    cases hhead
  | cons c path => rfl

theorem Upload.strip_path (u : Upload dir) (h : FitsLine u.path) :
    Text.strip u.path = u.path := by
  refine Text.strip_eq_self ⟨fun c hc => ?_, h.2⟩
  rw [u.head?_path] at hc
  cases hc
  rfl

theorem agentPaths_uploads {uploads : List (Upload dir)}
    (h : ∀ u ∈ uploads, FitsLine u.path) :
    agentPaths (uploads.map Upload.file) = uploads.map Upload.path := by
  unfold agentPaths
  rw [List.map_map, List.filter_eq_self.mpr]
  · refine List.map_congr_left fun u hu => ?_
    show Text.strip (String.ofList u.path).toList = u.path
    rw [String.toList_ofList, u.strip_path (h u hu)]
  · intro path hpath
    obtain ⟨u, hu, rfl⟩ := List.mem_map.mp hpath
    show (!(Text.strip (String.ofList u.path).toList).isEmpty) = true
    rw [String.toList_ofList, u.strip_path (h u hu), u.isEmpty_path]
    rfl

theorem mapM_lineFile {uploads : List (Upload dir)} (h : ∀ u ∈ uploads, FitsLine u.path) :
    ((uploads.map Upload.path).map footerLine).mapM lineFile
      = some (uploads.map Upload.attachment) := by
  induction uploads with
  | nil => rfl
  | cons u uploads ih =>
    rw [List.map_cons, List.map_cons, List.mapM_cons, lineFile_footerLine,
      u.strip_path (h u List.mem_cons_self), u.isEmpty_path, if_neg Bool.false_ne_true,
      ih fun v hv => h v (List.mem_cons_of_mem _ hv)]
    rfl

/-- **The footer of paths that fit on lines lists them.** -/
theorem footerFiles_footer {uploads : List (Upload dir)}
    (h : ∀ u ∈ uploads, FitsLine u.path) :
    footerFiles (footer (uploads.map Upload.path)) = some (uploads.map Upload.attachment) := by
  have hsplit : Text.splitLines (footer (uploads.map Upload.path))
      = (uploads.map Upload.path).map footerLine := by
    refine Text.splitLines_join (fun line hline => ?_) (fun line hline => ?_)
    · obtain ⟨path, hpath, rfl⟩ := List.mem_map.mp hline
      obtain ⟨u, hu, rfl⟩ := List.mem_map.mp hpath
      exact List.forall_mem_cons.mpr ⟨rfl, List.forall_mem_cons.mpr ⟨rfl, (h u hu).1⟩⟩
    · obtain ⟨path, hpath, rfl⟩ := List.mem_map.mp hline
      exact List.cons_ne_nil _ _
  rw [footerFiles_eq, hsplit, mapM_lineFile h]

theorem path_of_fileOfPath {s t : String} (h : fileOfPath s = fileOfPath t) : s = t := by
  have hfields := Json.obj.inj h
  have hpath := (List.cons.inj (List.cons.inj hfields).2).1
  exact Json.str.inj (Prod.mk.inj hpath).2

/-- **Content and paths are recovered** from the message the agent sees –
for every content and every list of uploads – exactly where no path has a
character a line ends at in it, or a blank at its end, and where, if there
is no attachment at all, the content does not end in a footer of its
own. -/
theorem recovered_iff (dir : UploadsDir) (content : String) (uploads : List (Upload dir)) :
    stripAttachedFilesBlock (.str (buildAgentInputContent content (uploads.map Upload.file)))
        = some (.str content, uploads.map Upload.attachment)
      ↔ (uploads = [] → ¬ EndsInFooter content.toList)
        ∧ ∀ u ∈ uploads, FitsLine u.path := by
  constructor
  · intro h
    refine ⟨fun hnil hfooter => ?_, fun u hu => ?_⟩
    · subst hnil
      exact strip_ne_of_endsInFooter hfooter _ h
    · obtain ⟨path, hfits, heq⟩ := fitsLine_of_strip h u.attachment (List.mem_map_of_mem hu)
      have hpath := congrArg String.toList (path_of_fileOfPath heq)
      rw [String.toList_ofList, String.toList_ofList] at hpath
      rw [hpath]
      exact hfits
  · rintro ⟨hcontent, hpaths⟩
    unfold buildAgentInputContent
    dsimp only
    rw [agentPaths_uploads hpaths]
    cases uploads with
    | nil => exact strip_of_not_endsInFooter (hcontent rfl)
    | cons u uploads =>
      rw [List.map_cons, List.isEmpty_cons, if_neg Bool.false_ne_true, ← List.map_cons,
        strip_footer _ (footerFiles_footer hpaths), String.ofList_toList]

def sessionUploads : UploadsDir := ⟨"/srv/sessions/s1/uploads".toList, rfl⟩

/-- **What is not recovered.** A message without attachments whose content
ends in a footer loses it, and a file whose name holds a line separator is
taken for a line of its own and one that is none, so that the footer stays
in the content. -/
theorem not_recovered :
    (∃ content : String,
      stripAttachedFilesBlock (.str (buildAgentInputContent content []))
        = some (.str "see", [fileOfPath "/etc/hosts"]) ∧ content ≠ "see")
      ∧ ∃ u : Upload sessionUploads,
        stripAttachedFilesBlock (.str (buildAgentInputContent "see" [u.file]))
          = some (.str (buildAgentInputContent "see" [u.file]), [])
        ∧ buildAgentInputContent "see" [u.file] ≠ "see" := by
  refine ⟨⟨"see\n\n[Attached files]\n- /etc/hosts", rfl, by decide⟩,
    ⟨"a\u2028b.txt".toList, "/srv/sessions/s1/uploads/a\u2028b.txt".toList, rfl⟩, rfl, by decide⟩

end AttachedFiles
