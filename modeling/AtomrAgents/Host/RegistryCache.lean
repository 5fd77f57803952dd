import AtomrAgents.Host.Config
import AtomrAgents.Host.FileActions
import AtomrAgents.Host.StoreIds
import AtomrAgents.Shared.Fences

set_option autoImplicit false

/-! An artifact is a file below `registry`, in a directory for its id below one for its kind. Whatever is
found two directories down counts as cached. A slug names an artifact in one text. -/

namespace AtomrAgents

open Shared Shared.UnixPath Shared.UnixPath.FileTree

def artifactKinds : List String :=
  ["tool_set", "skill", "persona", "agent", "workflow", "harness", "channel"]

def CachedArtifact.slug (art : CachedArtifact) : String := art.kind ++ ":" ++ art.id ++ "@" ++ art.version

structure SlugRef where
  kind : String
  id : String
  version : Option String
  deriving DecidableEq

-- The kinds as `{:?}` shows them.
def showKinds : String := "[" ++ ", ".intercalate (artifactKinds.map fun kind => "\"" ++ kind ++ "\"") ++ "]"

def parseSlug (slug : String) : Except HostError SlugRef :=
  match breakOn [':'] slug.toList with
  | none => .error (.registry ("invalid slug `" ++ slug ++ "` (expected kind:id@version)"))
  | some (kind, rest) =>
    let kind := String.ofList kind
    let (id, version) :=
      match breakOn ['@'] rest with
      | some (id, version) => (id, some (String.ofList version))
      | none => (rest, none)
    if kind ∉ artifactKinds then
      .error (.registry ("unknown kind `" ++ kind ++ "` (valid: " ++ showKinds ++ ")"))
    else if id = [] then .error (.registry ("empty id in `" ++ slug ++ "`"))
    else .ok { kind, id := String.ofList id, version }

structure ArtifactJson where
  toVecPretty : CachedArtifact → String
  fromSlice : String → Option CachedArtifact

def ArtifactJson.ReadsBack (json : ArtifactJson) (art : CachedArtifact) : Prop :=
  json.fromSlice (json.toVecPretty art) = some art

section Cache

variable (json : ArtifactJson) (host : HostPaths)

def artifactText (kind id version : String) : String :=
  String.ofList (join (join (join (displayPlace host.registryDir).toList kind.toList) id.toList)
    (version ++ ".json").toList)

def resolveArtifact (kind id version : String) (tree : FileTree) : Except HostError CachedArtifact :=
  let path := artifactPath host kind id version
  match tree.read path with
  | none => .error (.registry ("no cached artifact at " ++ artifactText host kind id version))
  | some bytes =>
    match json.fromSlice bytes with
    | none => .error (.json path)
    | some art => .ok { art with path := some path }

-- The artifacts in the directory of an id; what cannot be read is passed over.
def listVersions (kind : String) (kindDir : List Component) (tree : FileTree) (id : List Char) : List CachedArtifact :=
  let idPath := kindDir ++ [.normal id]
  if tree.isDir idPath then
    (tree.children (resolve idPath)).filterMap fun name =>
      match splitStem name with
      | some (stem, ext) =>
        if ext = "json".toList then
          (resolveArtifact json host kind (String.ofList id) (String.ofList stem) tree).toOption
        else none
      | none => none
  else []

def listKind (tree : FileTree) (kind : String) : List CachedArtifact :=
  let kindDir := push (pathOf host.registryDir) kind.toList
  if tree.isDir kindDir then
    (tree.children (resolve kindDir)).flatMap (listVersions json host kind kindDir tree)
  else []

def listArtifacts (kind : Option String) (tree : FileTree) : List CachedArtifact :=
  if tree.isDir (pathOf host.registryDir) then
    let kinds := match kind with
      | some kind => [kind]
      | none => artifactKinds
    (kinds.flatMap (listKind json host tree)).mergeSort fun a b => (compare a.slug b.slug).isLE
  else []

-- `differ` is how payloads are compared.
def verifyAll (differ : Value → Value → Bool) (fetch : String → String → String → Except HostError (Option Value)) :
    List CachedArtifact → Except HostError (List (CachedArtifact × String))
  | [] => .ok []
  | art :: arts =>
    match fetch art.kind art.id art.version with
    | .error e => .error e
    | .ok found =>
      match verifyAll differ fetch arts with
      | .error e => .error e
      | .ok diffs =>
        match found with
        | none => .ok ((art, "missing") :: diffs)
        | some payload => .ok (if differ payload art.payload then (art, "mismatch") :: diffs else diffs)

def verifyCache (differ : Value → Value → Bool) (fetch : String → String → String → Except HostError (Option Value))
    (tree : FileTree) : Except HostError (List (CachedArtifact × String)) :=
  verifyAll differ fetch (listArtifacts json host none tree)

end Cache

structure CacheCall where
  kind : String
  id : String
  version : String
  payload : Value
  ts : Nat

namespace CacheCall

variable (json : ArtifactJson) (host : HostPaths) (call : CacheCall)

def key : String × String × String := (call.kind, call.id, call.version)

def path : List Component := artifactPath host call.kind call.id call.version

def place : Place := resolve (call.path host)

def artifact : CachedArtifact :=
  (cacheArtifact json.toVecPretty host call.kind call.id call.version call.payload call.ts).1

def run (tree : FileTree) : FileTree × Bool :=
  performAll (cacheArtifact json.toVecPretty host call.kind call.id call.version call.payload call.ts).2 tree

end CacheCall

def cacheAll (json : ArtifactJson) (host : HostPaths) : List CacheCall → FileTree → FileTree × Bool
  | [], tree => (tree, true)
  | call :: calls, tree =>
    match call.run json host tree with
    | (tree, true) => cacheAll json host calls tree
    | (tree, false) => (tree, false)

structure CacheCall.Complete (json : ArtifactJson) (host : HostPaths) (call : CacheCall) (tree : FileTree) : Prop where
  resolved : resolveArtifact json host call.kind call.id call.version tree = .ok (call.artifact json host)
  listed : ∃ path, resolve path = call.place host ∧
    { call.artifact json host with path := some path } ∈ listArtifacts json host none tree
  verified : ∀ differ fetch diffs, verifyCache json host differ fetch tree = .ok diffs →
    fetch call.kind call.id call.version = .ok none → ∃ path, resolve path = call.place host ∧
      ({ call.artifact json host with path := some path }, "missing") ∈ diffs
  parsed : parseSlug (call.artifact json host).slug = .ok { kind := call.kind, id := call.id, version := call.version }

-- Two directories down, under a kind, and with a name before the extension.
def Listable (host : HostPaths) (place : Place) : Prop :=
  ∃ kind ∈ artifactKinds, ∃ id version, version ≠ [] ∧
    place = host.registryDir ++ [kind.toList, id, version ++ ".json".toList]

variable {json : ArtifactJson} {host : HostPaths} {call : CacheCall} {tree last : FileTree}

section Slugs

theorem artifactKinds_plain : ∀ kind ∈ artifactKinds, IsName kind.toList ∧ ':' ∉ kind.toList := by
  have plain : ∀ kind ∈ artifactKinds, Component.ofPiece kind.toList = some (.normal kind.toList) ∧
      '/' ∉ kind.toList ∧ '\x00' ∉ kind.toList ∧ ':' ∉ kind.toList := by decide
  intro kind member
  obtain ⟨plain, unseparated, clean, whole⟩ := plain kind member
  exact ⟨{ plain, unseparated, clean }, whole⟩

theorem parseSlug_slug_iff (art : CachedArtifact) (valid : art.kind ∈ artifactKinds) (present : art.id ≠ "") :
    parseSlug art.slug = .ok { kind := art.kind, id := art.id, version := art.version } ↔ '@' ∉ art.id.toList := by
  have letters : art.slug.toList = art.kind.toList ++ ':' :: (art.id.toList ++ '@' :: art.version.toList) := by
    simp [CachedArtifact.slug, String.toList_append]
  have kind := breakOn_single (artifactKinds_plain art.kind valid).2 (art.id.toList ++ '@' :: art.version.toList)
  rw [parseSlug, letters, kind]
  constructor
  · intro parsed
    cases found : breakOn ['@'] (art.id.toList ++ '@' :: art.version.toList) with
    | none =>
      have missing := (breakOn_eq_none_iff (List.cons_ne_nil _ _)).mp found
      exact absurd ⟨art.id.toList, art.version.toList, by simp⟩ missing
    | some parts =>
      obtain ⟨id, version⟩ := parts
      simp only [found, String.ofList_toList, not_not.mpr valid, if_false] at parsed
      split at parsed
      next => cases parsed
      next =>
        have same : String.ofList id = art.id := congrArg SlugRef.id (Except.ok.inj parsed)
        rw [← same, String.toList_ofList]
        exact not_mem_of_breakOn found
  · intro absent
    have some : art.id.toList ≠ [] := fun none => present (String.toList_eq_nil_iff.mp none)
    simp [breakOn_single absent, valid, some]

end Slugs

section Paths

theorem registryDir_names : ∀ name ∈ host.registryDir, IsName name := by
  intro name member
  rcases List.mem_append.mp member with above | last
  · obtain ⟨file, -, rfl⟩ := List.mem_map.mp above
    exact { plain := file.plain, unseparated := file.unseparated, clean := file.clean }
  · rw [List.mem_singleton.mp last]
    exact { plain := by decide, unseparated := by decide, clean := by decide }

theorem nameable_artifactPath (kind id version : String) : Nameable (artifactPath host kind id version) := by
  refine nameable_push (nameable_push (nameable_push ?_ _) _) _
  intro name member _
  rcases List.mem_cons.mp member with root | member
  · cases root
  · obtain ⟨other, inside, same⟩ := List.mem_map.mp member
    rw [← Component.normal.inj same]
    exact registryDir_names other inside

theorem artifactPath_names (host : HostPaths) (kind id version : String) (kindName : IsName kind.toList)
    (idName : IsName id.toList)
    (versionName : IsName (version ++ ".json").toList) : artifactPath host kind id version =
      pathOf (host.registryDir ++ [kind.toList, id.toList, (version ++ ".json").toList]) := by
  rw [artifactPath, push_pathOf kindName.unseparated kindName.plain, push_pathOf idName.unseparated idName.plain,
    push_pathOf versionName.unseparated versionName.plain]
  simp

end Paths

section Writing

structure FileStored (tree last : FileTree) (path : List Component) (body : String) : Prop where
  located : last.locate path = some (resolve path)
  file : last.node (resolve path) = some (.file body)
  leads : Leads last (resolve path).dropLast
  keeps : KeepsDirs tree last
  others : ∀ other, other ≠ resolve path →
    last.node other = tree.node other ∨ tree.node other = none ∧ last.node other = some .dir
  named : Named tree → Nameable path → Named last

theorem fileStored_of_performAll {parent path : List Component} {body : String} (up : parent <+: path)
    (done : performAll [.createDirAll parent, .write path body] tree = (last, true)) :
    FileStored tree last path body := by
  obtain ⟨grown, grows, outcome⟩ := performAll_store tree parent path body
  rcases outcome with failed | ⟨place, -, -, located, free, stored⟩
  · rw [failed] at done
    cases done
  rw [stored] at done
  cases done
  obtain rfl := locate_eq_resolve located
  obtain ⟨taken, front, name, dir, parts, entered, place⟩ := locate_eq_some located
  rw [place] at free
  have keeps : KeepsDirs grown (grown.put (dir ++ [name]) (.file body)) := keepsDirs_put free
  have above : Leads grown dir := leads_root.of_reach entered
  constructor
  case located =>
    rw [place] at located ⊢
    exact locate_of_keepsDirs keeps located
  case file => rw [place, node_put, if_pos rfl]
  case leads =>
    rw [place, List.dropLast_concat]
    exact fun early before => keeps early (above early before)
  case keeps =>
    rw [place]
    exact fun other here => keeps other (grows.keepsDirs other here)
  case others =>
    intro other differ
    rw [place] at differ ⊢
    rw [node_put, if_neg differ]
    exact (grows other).imp_right fun ⟨absent, made, _⟩ => ⟨absent, made⟩
  case named =>
    intro named nameable
    have before : isTaken parent = true :=
      List.all_eq_true.mpr fun component member => List.all_eq_true.mp taken component (up.subset member)
    have created : Named grown := named.of_grows grows fun through passes =>
      isName_of_passes (fun name member => nameable name (up.subset member)) before passes
    have passes : Passes [] path (resolve path) := ⟨front, name, by rw [parts], by rw [parts]; rfl⟩
    have names := isName_of_passes nameable taken passes
    rw [place] at names ⊢
    exact created.put names

theorem CacheCall.stored (done : call.run json host tree = (last, true)) :
    FileStored tree last (call.path host) (json.toVecPretty (call.artifact json host)) := by
  have above := above_artifactPath host call.kind call.id call.version
  rw [CacheCall.run, cacheArtifact, above] at done
  exact fileStored_of_performAll (above_front above) done

theorem CacheCall.named (done : call.run json host tree = (last, true)) (named : Named tree) : Named last :=
  (CacheCall.stored done).named named (nameable_artifactPath _ _ _)

theorem resolveArtifact_of_file {kind id version : String} {art : CachedArtifact} (reads : json.ReadsBack art)
    (located : tree.locate (artifactPath host kind id version) = some (resolve (artifactPath host kind id version)))
    (file : tree.node (resolve (artifactPath host kind id version)) = some (.file (json.toVecPretty art))) :
    resolveArtifact json host kind id version tree =
      .ok { art with path := some (artifactPath host kind id version) } := by
  have back : json.fromSlice (json.toVecPretty art) = some art := reads
  simp only [resolveArtifact, FileTree.read, located, Option.bind_some, file, back]

theorem CacheCall.resolved (done : call.run json host tree = (last, true))
    (reads : json.ReadsBack (call.artifact json host)) :
    resolveArtifact json host call.kind call.id call.version last = .ok (call.artifact json host) :=
  resolveArtifact_of_file reads (CacheCall.stored done).located (CacheCall.stored done).file

end Writing

section Listing

variable {art : CachedArtifact} {kind : String}

theorem mem_listVersions {kindDir : List Component} {id : List Char} :
    art ∈ listVersions json host kind kindDir tree id ↔ tree.isDir (kindDir ++ [.normal id]) = true ∧
      ∃ version, version ≠ [] ∧
        version ++ ".json".toList ∈ tree.children (resolve (kindDir ++ [.normal id])) ∧
        resolveArtifact json host kind (String.ofList id) (String.ofList version) tree = .ok art := by
  rw [listVersions]
  split
  case isFalse off => simp [off]
  next entered =>
    rw [List.mem_filterMap]
    constructor
    · rintro ⟨name, there, read⟩
      split at read
      next stem ext parts =>
        obtain ⟨rfl, some⟩ := append_of_splitStem parts
        split at read
        next same =>
          subst same
          refine ⟨entered, stem, some, there, ?_⟩
          cases found : resolveArtifact json host kind (String.ofList id) (String.ofList stem) tree with
          | error e => simp [found, Except.toOption] at read
          | ok art' => simpa [found, Except.toOption] using read
        next => cases read
      next => cases read
    · rintro ⟨-, version, some, there, resolved⟩
      refine ⟨_, there, ?_⟩
      have parts : splitStem (version ++ ".json".toList) = .some (version, "json".toList) :=
        splitStem_append some (by decide) (by decide)
      simp only [parts, if_true, resolved]
      rfl

theorem mem_listArtifacts : art ∈ listArtifacts json host none tree ↔
    tree.isDir (pathOf host.registryDir) = true ∧ ∃ kind ∈ artifactKinds,
      tree.isDir (push (pathOf host.registryDir) kind.toList) = true ∧
        ∃ id ∈ tree.children (resolve (push (pathOf host.registryDir) kind.toList)),
          art ∈ listVersions json host kind (push (pathOf host.registryDir) kind.toList) tree id := by
  rw [listArtifacts]
  split
  case isFalse off => simp [off]
  next entered =>
    rw [List.mem_mergeSort, List.mem_flatMap]
    refine (and_iff_right entered).symm.trans (and_congr_right fun _ => exists_congr fun kind => ?_)
    refine and_congr_right fun _ => ?_
    rw [listKind]
    split
    case isFalse off => simp [off]
    next inside => simp [inside]

theorem path_of_resolved {id version : String} (resolved : resolveArtifact json host kind id version tree = .ok art) :
    art.path = some (artifactPath host kind id version) := by
  rw [resolveArtifact] at resolved
  split at resolved
  next => cases resolved
  next =>
    split at resolved
    next => cases resolved
    next =>
      cases resolved
      rfl

theorem kindDir_eq (host : HostPaths) (valid : kind ∈ artifactKinds) :
    push (pathOf host.registryDir) kind.toList = pathOf (host.registryDir ++ [kind.toList]) := by
  have name := (artifactKinds_plain kind valid).1
  exact push_pathOf name.unseparated name.plain _

theorem artifactPath_ofList (host : HostPaths) {id version : List Char} (valid : kind ∈ artifactKinds)
    (idName : IsName id)
    (versionName : IsName (version ++ ".json".toList)) :
    artifactPath host kind (String.ofList id) (String.ofList version) =
      pathOf (host.registryDir ++ [kind.toList, id, version ++ ".json".toList]) := by
  have text : (String.ofList version ++ ".json").toList = version ++ ".json".toList := by
    rw [String.toList_append, String.toList_ofList]
  have whole := artifactPath_names host kind (String.ofList id) (String.ofList version)
    (artifactKinds_plain kind valid).1 (by rw [String.toList_ofList]; exact idName) (by rw [text]; exact versionName)
  rw [whole, text, String.toList_ofList]

theorem listable_of_mem (named : Named tree) (member : art ∈ listArtifacts json host none tree) :
    ∃ path, art.path = some path ∧ Listable host (resolve path) := by
  obtain ⟨-, kind, valid, -, id, idThere, member⟩ := mem_listArtifacts.mp member
  obtain ⟨-, version, some, there, resolved⟩ := mem_listVersions.mp member
  refine ⟨_, path_of_resolved resolved, kind, valid, id, version, some, ?_⟩
  rw [artifactPath_ofList host valid (isName_of_mem named idThere) (isName_of_mem named there), resolve_pathOf]

theorem mem_of_listable {place : Place} (named : Named tree) (listable : Listable host place)
    (leads : Leads tree place.dropLast) (file : tree.node place = some (.file (json.toVecPretty art)))
    (reads : json.ReadsBack art) :
    ∃ path, resolve path = place ∧ { art with path := some path } ∈ listArtifacts json host none tree := by
  obtain ⟨kind, valid, id, version, present, rfl⟩ := listable
  have names : ∀ name ∈ host.registryDir ++ [kind.toList, id, version ++ ".json".toList], IsName name :=
    named _ (by rw [file]; simp)
  have idName : IsName id := names id (by simp)
  have versionName : IsName (version ++ ".json".toList) := names _ (by simp)
  have up : (host.registryDir ++ [kind.toList, id, version ++ ".json".toList]).dropLast =
      host.registryDir ++ [kind.toList] ++ [id] := by
    rw [List.dropLast_append_of_ne_nil (List.cons_ne_nil _ _)]
    simp
  rw [up] at leads
  have enter (dir : Place) (front : dir <+: host.registryDir ++ [kind.toList] ++ [id]) :
      tree.isDir (pathOf dir) = true := by
    refine isDir_pathOf (fun early before => leads early (before.trans front)) fun name member => ?_
    refine (names name ?_).clean
    have inside := front.subset member
    simp only [List.mem_append, List.mem_cons, List.not_mem_nil, or_false] at inside ⊢
    tauto
  have kindPath := kindDir_eq host valid
  have idPath : push (pathOf host.registryDir) kind.toList ++ [.normal id] =
      pathOf (host.registryDir ++ [kind.toList] ++ [id]) := by
    rw [kindPath]
    simp [pathOf]
  have path := artifactPath_ofList host valid idName versionName
  have whole : pathOf (host.registryDir ++ [kind.toList, id, version ++ ".json".toList]) =
      pathOf (host.registryDir ++ [kind.toList] ++ [id]) ++ [.normal (version ++ ".json".toList)] := by
    simp [pathOf]
  have located : tree.locate (artifactPath host kind (String.ofList id) (String.ofList version)) =
      some (resolve (artifactPath host kind (String.ofList id) (String.ofList version))) := by
    rw [path, whole, locate_name (enter _ List.prefix_rfl) versionName.clean, resolve_name]
  have stored : tree.node (resolve (artifactPath host kind (String.ofList id) (String.ofList version))) =
      some (.file (json.toVecPretty art)) := by
    rw [path, resolve_pathOf, file]
  refine ⟨_, by rw [path, resolve_pathOf], mem_listArtifacts.mpr ⟨enter _ ⟨[kind.toList] ++ [id], by simp⟩, kind, valid,
    ?_, id, ?_, mem_listVersions.mpr ⟨?_, version, present, ?_, resolveArtifact_of_file reads located stored⟩⟩⟩
  · rw [kindPath]
    exact enter _ (List.prefix_append _ _)
  · rw [kindPath, resolve_pathOf, mem_children, leads _ List.prefix_rfl]
    simp
  · rw [idPath]
    exact enter _ List.prefix_rfl
  · rw [idPath, resolve_pathOf, mem_children]
    have same : host.registryDir ++ [kind.toList] ++ [id] ++ [version ++ ".json".toList] =
        host.registryDir ++ [kind.toList, id, version ++ ".json".toList] := by simp
    rw [same, file]
    simp

theorem mem_verifyAll {differ : Value → Value → Bool}
    {fetch : String → String → String → Except HostError (Option Value)} {arts : List CachedArtifact}
    {diffs : List (CachedArtifact × String)} (checked : verifyAll differ fetch arts = .ok diffs) (member : art ∈ arts) :
    ∃ found, fetch art.kind art.id art.version = .ok found ∧ (found = none → (art, "missing") ∈ diffs) ∧
      ∀ payload, found = some payload → differ payload art.payload = true → (art, "mismatch") ∈ diffs := by
  induction arts generalizing diffs with
  | nil => cases member
  | cons first arts ih =>
    rw [verifyAll] at checked
    split at checked
    case h_1 => cases checked
    next found looked =>
      split at checked
      case h_1 => cases checked
      next rest later =>
        have kept : ∀ entry ∈ rest, entry ∈ diffs := by
          intro entry there
          cases found with
          | none =>
            cases checked
            exact List.mem_cons_of_mem _ there
          | some payload =>
            simp only [Except.ok.injEq] at checked
            rw [← checked]
            split
            · exact List.mem_cons_of_mem _ there
            · exact there
        rcases List.mem_cons.mp member with rfl | member
        · refine ⟨found, looked, ?_, ?_⟩
          · rintro rfl
            cases checked
            exact List.mem_cons_self
          · rintro payload rfl differs
            simp only [differs, if_true, Except.ok.injEq] at checked
            rw [← checked]
            exact List.mem_cons_self
        · obtain ⟨found', looked', missing, mismatch⟩ := ih later member
          exact ⟨found', looked', fun none => kept _ (missing none),
            fun payload some differs => kept _ (mismatch payload some differs)⟩

theorem CacheCall.complete_iff (valid : call.kind ∈ artifactKinds) (present : call.id ≠ "") (named : Named tree)
    (done : call.run json host tree = (last, true)) (reads : json.ReadsBack (call.artifact json host)) :
    call.Complete json host last ↔ Listable host (call.place host) ∧ '@' ∉ call.id.toList := by
  have named' := CacheCall.named done named
  have parsed := parseSlug_slug_iff (call.artifact json host) valid present
  constructor
  · rintro ⟨-, ⟨path, same, member⟩, -, slug⟩
    obtain ⟨path', written, listable⟩ := listable_of_mem named' member
    cases written
    exact ⟨same ▸ listable, parsed.mp slug⟩
  · intro ⟨listable, absent⟩
    have stored := CacheCall.stored done
    have listed := mem_of_listable named' listable stored.leads stored.file reads
    exact {
      resolved := CacheCall.resolved done reads
      listed
      verified := fun differ fetch diffs checked missing => by
        obtain ⟨path, same, member⟩ := listed
        obtain ⟨found, looked, absent, -⟩ := mem_verifyAll checked member
        exact ⟨path, same, absent (Except.ok.inj (looked.symm.trans missing))⟩
      parsed := parsed.mpr absent }

end Listing

section Runs

variable {first : CacheCall} {later : List CacheCall} {mid : FileTree} {place : Place}

-- Whose artifact is in the file, if the first one's was at first.
def occupant (host : HostPaths) (place : Place) (first : CacheCall) (later : List CacheCall) : CacheCall :=
  later.foldl (fun holder call => if call.place host = place then call else holder) first

theorem occupant_of_apart (apart : ∀ call ∈ later, call.place host ≠ place) :
    occupant host place first later = first := by
  induction later with
  | nil => rfl
  | cons call later ih =>
    rw [occupant, List.foldl_cons, if_neg (apart call List.mem_cons_self)]
    exact ih fun other member => apart other (List.mem_cons_of_mem call member)

theorem occupant_mem (first : CacheCall) (clash : ∃ call ∈ later, call.place host = place) :
    occupant host place first later ∈ later := by
  induction later generalizing first with
  | nil => simp at clash
  | cons call later ih =>
    rw [occupant, List.foldl_cons]
    by_cases again : ∃ other ∈ later, other.place host = place
    · exact List.mem_cons_of_mem call (ih _ again)
    · have apart : ∀ other ∈ later, other.place host ≠ place := fun other member same => again ⟨other, member, same⟩
      obtain ⟨other, member, same⟩ := clash
      rcases List.mem_cons.mp member with rfl | member
      · rw [if_pos same]
        exact List.mem_cons.mpr (.inl (occupant_of_apart apart))
      · exact absurd same (apart other member)

theorem cacheAll_cons : cacheAll json host (call :: later) tree = (last, true) ↔
    ∃ mid, call.run json host tree = (mid, true) ∧ cacheAll json host later mid = (last, true) := by
  rw [cacheAll]
  split
  next mid run => simp [run]
  next mid run => simp [run]

theorem keepsDirs_cacheAll (done : cacheAll json host later tree = (last, true)) : KeepsDirs tree last := by
  induction later generalizing tree with
  | nil =>
    cases done
    exact fun _ here => here
  | cons call later ih =>
    obtain ⟨mid, run, done⟩ := cacheAll_cons.mp done
    exact fun other here => ih done other ((CacheCall.stored run).keeps other here)

theorem file_cacheAll (file : tree.node place = some (.file (json.toVecPretty (first.artifact json host))))
    (done : cacheAll json host later tree = (last, true)) :
    last.node place =
      some (.file (json.toVecPretty ((occupant host place first later).artifact json host))) := by
  induction later generalizing tree first with
  | nil =>
    cases done
    exact file
  | cons call later ih =>
    obtain ⟨mid, run, done⟩ := cacheAll_cons.mp done
    have stored := CacheCall.stored run
    rw [occupant, List.foldl_cons]
    by_cases same : call.place host = place
    · rw [if_pos same]
      refine ih ?_ done
      rw [← same]
      exact stored.file
    · rw [if_neg same]
      refine ih ?_ done
      rcases stored.others place (Ne.symm same) with unchanged | ⟨absent, -⟩
      · rw [unchanged, file]
      · rw [file] at absent
        cases absent

theorem CacheCall.kept_iff (done : first.run json host tree = (mid, true))
    (after : cacheAll json host later mid = (last, true)) (others : ∀ call ∈ later, call.key ≠ first.key)
    (reads : ∀ call ∈ first :: later, json.ReadsBack (call.artifact json host)) :
    resolveArtifact json host first.kind first.id first.version last = .ok (first.artifact json host) ↔
      ∀ call ∈ later, call.place host ≠ first.place host := by
  have stored := CacheCall.stored done
  have file := file_cacheAll stored.file after
  have located := locate_of_keepsDirs (keepsDirs_cacheAll after) stored.located
  constructor
  · intro resolved call member same
    have inside := occupant_mem first ⟨call, member, same⟩
    rw [resolveArtifact_of_file (reads _ (List.mem_cons_of_mem first inside)) located file] at resolved
    have equal := Except.ok.inj resolved
    refine others _ inside (Prod.ext ?_ (Prod.ext ?_ ?_))
    · exact congrArg CachedArtifact.kind equal
    · exact congrArg CachedArtifact.id equal
    · exact congrArg CachedArtifact.version equal
  · intro apart
    have same : occupant host (first.place host) first later = first := occupant_of_apart apart
    rw [CacheCall.place, CacheCall.path] at same
    rw [CacheCall.path, same] at file
    exact resolveArtifact_of_file (reads first List.mem_cons_self) located file

end Runs

structure NamedTree extends FileTree where
  named : Named toFileTree

/-- What was cached is complete, and stays, exactly under these conditions. -/
theorem registry_complete_iff (json : ArtifactJson) (host : HostPaths) (tree : NamedTree) (first : CacheCall)
    (later : List CacheCall) (mid last : FileTree) (valid : first.kind ∈ artifactKinds) (present : first.id ≠ "")
    (done : first.run json host tree.toFileTree = (mid, true))
    (after : cacheAll json host later mid = (last, true)) (others : ∀ call ∈ later, call.key ≠ first.key)
    (reads : ∀ call ∈ first :: later, json.ReadsBack (call.artifact json host)) :
    (first.Complete json host mid ↔ Listable host (first.place host) ∧ '@' ∉ first.id.toList) ∧
      (resolveArtifact json host first.kind first.id first.version last = .ok (first.artifact json host) ↔
        ∀ call ∈ later, call.place host ≠ first.place host) :=
  ⟨CacheCall.complete_iff valid present tree.named done (reads first List.mem_cons_self),
    CacheCall.kept_iff done after others reads⟩

section Example

def rootHost : HostPaths := { root := [] }

def emptyTree : NamedTree where
  toFileTree := .empty
  named place there := by
    by_cases root : place = []
    · rw [root]
      simp
    · exact absurd (by simp [FileTree.node, root, FileTree.empty, Table.empty, Table.find]) there

def summarize (version : String) : CacheCall where
  kind := "skill"
  id := "summarize"
  version := version
  payload := .null
  ts := 10

def summarizeText (version : String) : String :=
  "\x7b\n  \"kind\": \"skill\",\n  \"id\": \"summarize\",\n  \"version\": \"" ++ version ++ "\",\n" ++
    "  \"payload\": null,\n  \"cached_at_ms\": 10,\n" ++
    "  \"path\": \"/registry/skill/summarize/" ++ version ++ ".json\"\n\x7d"

def summarized (version : String) : CachedArtifact where
  kind := "skill"
  id := "summarize"
  version := version
  payload := .null
  cachedAtMs := 10
  path := some (artifactPath rootHost "skill" "summarize" version)

def summarizeJson : ArtifactJson where
  toVecPretty art := summarizeText art.version
  fromSlice text :=
    if text = summarizeText "0.1.0" then some (summarized "0.1.0")
    else if text = summarizeText "0.2.0" then some (summarized "0.2.0")
    else none

theorem summarizeJson_reads : ∀ call ∈ [summarize "0.1.0", summarize "0.2.0"],
    summarizeJson.ReadsBack (call.artifact summarizeJson rootHost) := by
  have differ : summarizeText "0.2.0" ≠ summarizeText "0.1.0" := by decide
  have first : summarizeJson.fromSlice (summarizeText "0.1.0") = some (summarized "0.1.0") := by
    simp [summarizeJson]
  have second : summarizeJson.fromSlice (summarizeText "0.2.0") = some (summarized "0.2.0") := by
    simp [summarizeJson, differ]
  intro call member
  rcases List.mem_cons.mp member with rfl | member
  · exact first
  · rw [List.mem_singleton.mp member]
    exact second

def summarizedOnce : FileTree := ((summarize "0.1.0").run summarizeJson rootHost emptyTree.toFileTree).1

def summarizedTwice : FileTree := ((summarize "0.2.0").run summarizeJson rootHost summarizedOnce).1

theorem summarize_kept :
    ((summarize "0.1.0").Complete summarizeJson rootHost summarizedOnce ↔
      Listable rootHost ((summarize "0.1.0").place rootHost) ∧ '@' ∉ (summarize "0.1.0").id.toList) ∧
    (resolveArtifact summarizeJson rootHost "skill" "summarize" "0.1.0" summarizedTwice =
        .ok ((summarize "0.1.0").artifact summarizeJson rootHost) ↔
      ∀ call ∈ [summarize "0.2.0"], call.place rootHost ≠ (summarize "0.1.0").place rootHost) :=
  registry_complete_iff summarizeJson rootHost emptyTree (summarize "0.1.0") [summarize "0.2.0"] summarizedOnce
    summarizedTwice (by decide) (by decide) rfl (cacheAll_cons.mpr ⟨_, rfl, rfl⟩) (by decide) summarizeJson_reads

def teamSummarize : CacheCall := { summarize "1" with id := "team/summarize" }

-- A file for it is one directory too far down, and another artifact has the same.
theorem teamSummarize_missed :
    (∃ tree, teamSummarize.run summarizeJson rootHost emptyTree.toFileTree = (tree, true) ∧
      ¬ teamSummarize.Complete summarizeJson rootHost tree) ∧
    teamSummarize.place rootHost =
      CacheCall.place rootHost { teamSummarize with id := "team", version := "summarize/1" } := by
  refine ⟨⟨_, rfl, fun complete => ?_⟩, by decide⟩
  obtain ⟨path, same, member⟩ := complete.listed
  have run : teamSummarize.run summarizeJson rootHost emptyTree.toFileTree = (_, true) := rfl
  have named := CacheCall.named run emptyTree.named
  obtain ⟨path', written, kind, -, id, version, -, place⟩ := listable_of_mem named member
  cases written
  have size := congrArg List.length (same.symm.trans place)
  simp only [List.length_append, List.length_cons, List.length_nil] at size
  have long : (teamSummarize.place rootHost).length = 5 := by decide
  have short : rootHost.registryDir.length = 1 := rfl
  omega

end Example

end AtomrAgents
