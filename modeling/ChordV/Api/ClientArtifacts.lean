import ChordV.Api.Releases

/-!
# The artifact that a client is offered

`pickClientUsableArtifact` of `release-center.service.ts` with the functions of
`release-center.utils.ts` that it calls, and `parseArtifactBuildNumber`.

* `Server` is what the process reads besides the rows: the origin of the site, the download
  mirror's settings, and whether a stored path leads to a readable file in the storage root.
* An artifact that a check throws on is skipped, so a check is here a `Bool`.
* `resolveReleaseArtifactForClient` returns the row with another `downloadUrl`.
-/

namespace ChordV.Api.ClientUpdates

open Lib Lib.Js Releases

/-! ## Rows -/

/-- `ReleaseArtifactDeliveryMode`. -/
inductive DeliveryMode where
  | desktopInstallerDownload
  | desktopFullReplace
  | apkDownload
  | externalDownload
  | none
deriving DecidableEq, Repr

/-- What is read of a `ReleaseArtifact`. -/
structure ArtifactRow where
  id : Text
  uploaded : Bool
  type : ArtifactType
  deliveryMode : DeliveryMode
  downloadUrl : Text
  sourceUrl : Option Text := none
  fileName : Option Text := none
  storedFilePath : Option Text := none
  fileSizeBytes : Option Int := none
  updaterSignature : Option Text := none
  isPrimary : Bool := false
deriving DecidableEq, Repr

/-- The settings, and the files that can be read. -/
structure Server where
  publicSiteOrigin : Text := []
  defaultMirrorPrefix : Option Text := none
  allowClientMirror : Bool := true
  /-- `resolveReleaseArtifactAbsolutePath` and `ensureFileReadable` on a stored path. -/
  readable : Text → Bool := fun _ => false

/-! ## Usable artifacts -/

/-- The types a platform takes. -/
def assertReleaseArtifactTypeAllowed : Platform → ArtifactType → Bool
  | .macos, .dmg | .macos, .external => true
  | .windows, .setupExe | .windows, .zip | .windows, .external => true
  | .android, .apk | .android, .external => true
  | .ios, .ipa | .ios, .external => true
  | _, _ => false

/-- The ways a type is delivered on a platform. -/
def assertReleaseArtifactDeliveryAllowed : Platform → ArtifactType → DeliveryMode → Bool
  | .windows, .setupExe, .desktopInstallerDownload => true
  | .windows, .zip, .desktopFullReplace => true
  | .windows, .external, .externalDownload => true
  | .macos, .dmg, .desktopInstallerDownload => true
  | .macos, .external, .externalDownload => true
  | .android, .apk, .apkDownload => true
  | .android, .external, .externalDownload => true
  | .ios, .ipa, .externalDownload => true
  | .ios, .external, .externalDownload => true
  | _, _, _ => false

/-- What follows a beginning that is compared as `/i` does. -/
def dropPrefixIgnoreCase : Text → Text → Option Text
  | [], s => some s
  | p :: ps, c :: s => if c.toLower = p then dropPrefixIgnoreCase ps s else none
  | _ :: _, [] => none

/-- The URL is one of https, in any case of letters. -/
def isHttpsUrl (url : Text) : Bool :=
  (dropPrefixIgnoreCase "https://".toList (trim url)).isSome

/-- The URL is one of http or https. -/
def isHttpReleaseUrl (url : Text) : Bool :=
  isHttpsUrl url || (dropPrefixIgnoreCase "http://".toList (trim url)).isSome

/-- The URL is absolute, or a path of this server. -/
def assertFullUpdateDownloadUrlAllowed (rawUrl : Text) : Bool :=
  isHttpReleaseUrl rawUrl || (trim rawUrl).head? == some '/'

/-- One GiB. -/
def MAX_DESKTOP_UPDATE_DOWNLOAD_BYTES : Int := 1073741824

/-- `value?.trim()` is not empty. -/
def filled (value : Option Text) : Bool := value.any fun text => !(trim text).isEmpty

/-- The artifact has all that a client of the platform needs. -/
def assertReleaseArtifactClientUsable (artifact : ArtifactRow) (platform : Platform) : Bool :=
  assertReleaseArtifactTypeAllowed platform artifact.type &&
  assertReleaseArtifactDeliveryAllowed platform artifact.type artifact.deliveryMode &&
  !(platform == .windows && artifact.type == .setupExe && !filled artifact.updaterSignature) &&
  artifact.fileSizeBytes.any (fun size => 0 < size && size ≤ MAX_DESKTOP_UPDATE_DOWNLOAD_BYTES) &&
  !(!artifact.uploaded &&
    (artifact.deliveryMode == .desktopFullReplace ||
      artifact.deliveryMode == .desktopInstallerDownload) && !isHttpsUrl artifact.downloadUrl) &&
  (artifact.deliveryMode != .desktopFullReplace ||
    assertFullUpdateDownloadUrlAllowed artifact.downloadUrl)

/-- An uploaded file is there. -/
def assertStoredReleaseArtifactReadable (server : Server) (artifact : ArtifactRow) : Bool :=
  !artifact.uploaded ||
    artifact.storedFilePath.any fun path => !path.isEmpty && server.readable path

/-! ## Addresses for a client -/

/-- The first item that is not blank, of those between commas and line ends. -/
def firstMirrorPrefix (value : Option Text) : Option Text :=
  ((value.getD []).splitOnP (fun c => c == '\n' || c == ',')).map trim |>.find? fun item =>
    !item.isEmpty

/-- What a replacement with `$` patterns stands for: `$$`, `$&`, and what is before and after the
match. -/
def substitute (before after : Text) : Text → Text
  | '$' :: c :: rest =>
    if c = '$' then '$' :: substitute before after rest
    else if c = '&' then "{url}".toList ++ substitute before after rest
    else if c.toNat = 96 then before ++ substitute before after rest
    else if c = '\'' then after ++ substitute before after rest
    else '$' :: substitute before after (c :: rest)
  | c :: rest => c :: substitute before after rest
  | [] => []

/-- `replaceAll("{url}", originUrl)`, for what follows `before`. -/
def replaceUrl (originUrl before : Text) : Text → Text
  | '{' :: 'u' :: 'r' :: 'l' :: '}' :: rest =>
    substitute before rest originUrl ++ replaceUrl originUrl (before ++ "{url}".toList) rest
  | c :: rest => c :: replaceUrl originUrl (before ++ [c]) rest
  | [] => []

/-- The origin behind the prefix, or in its place for it. -/
def joinMirrorPrefix (mirror originUrl : Text) : Text :=
  let trimmedPrefix := trim mirror
  if trimmedPrefix.isEmpty then originUrl
  else if trimmedPrefix.tails.any ("{url}".toList.isPrefixOf ·) then
    replaceUrl originUrl [] trimmedPrefix
  else trimmedPrefix ++ originUrl

/-- The mirror of the client, else that of the server. -/
def buildReleaseArtifactDownloadUrlForClient (originUrl : Text)
    (defaultMirrorPrefix clientMirrorPrefix : Option Text) (allowClientMirror : Bool) : Text :=
  if !isHttpReleaseUrl originUrl then originUrl
  else if allowClientMirror && filled clientMirrorPrefix then
    joinMirrorPrefix ((firstMirrorPrefix clientMirrorPrefix).getD (clientMirrorPrefix.getD []))
      originUrl
  else
    match firstMirrorPrefix defaultMirrorPrefix with
    | some defaultPrefix => joinMirrorPrefix defaultPrefix originUrl
    | none => originUrl

/-- The address under which this server hands out the file. -/
def buildReleaseArtifactDownloadUrl (server : Server) (artifactId : Text) : Text :=
  server.publicSiteOrigin ++ "/api/downloads/releases/".toList ++ artifactId

/-- The artifact as a client sees it. -/
def resolveReleaseArtifactForClient (server : Server) (artifact : ArtifactRow)
    (clientMirrorPrefix : Option Text) : ArtifactRow :=
  let originUrl :=
    if artifact.uploaded then buildReleaseArtifactDownloadUrl server artifact.id
    else artifact.downloadUrl
  if artifact.uploaded || !isHttpReleaseUrl originUrl then
    { artifact with downloadUrl := originUrl }
  else
    { artifact with
      downloadUrl := buildReleaseArtifactDownloadUrlForClient originUrl server.defaultMirrorPrefix
        clientMirrorPrefix server.allowClientMirror }

/-! ## Picking -/

/-- The primary artifact, of the preferred type if there is one. -/
def pickPrimaryReleaseArtifact (artifacts : List ArtifactRow)
    (preferredType : Option ArtifactType) : Option ArtifactRow :=
  let typed := artifacts.filter fun item => some item.type == preferredType
  (typed.find? fun item => item.isPrimary).or <| typed.head?.or <|
    (artifacts.find? fun item => item.isPrimary).or artifacts.head?

/-- The body of the `try` blocks. -/
def offerArtifact (server : Server) (platform : Platform) (clientMirrorPrefix : Option Text)
    (artifact : ArtifactRow) : Option ArtifactRow :=
  if assertReleaseArtifactClientUsable artifact platform &&
      assertStoredReleaseArtifactReadable server artifact then
    some (resolveReleaseArtifactForClient server artifact clientMirrorPrefix)
  else none

/-- The artifact that a client is offered. -/
def pickClientUsableArtifact (server : Server) (artifacts : List ArtifactRow)
    (platform : Platform) (preferredType : Option ArtifactType)
    (clientMirrorPrefix : Option Text) : Option ArtifactRow :=
  let scopedArtifacts :=
    match preferredType with
    | some preferred => artifacts.filter fun item =>
        item.type == preferred || (preferred != .setupExe && item.type == .external)
    | none => artifacts
  let candidates :=
    match pickPrimaryReleaseArtifact scopedArtifacts preferredType with
    | some preferred => preferred :: scopedArtifacts.filter fun item => item.id != preferred.id
    | none => scopedArtifacts
  candidates.findSome? fun artifact =>
    (offerArtifact server platform clientMirrorPrefix artifact).or <|
      if filled clientMirrorPrefix then offerArtifact server platform none artifact else none

/-! ## Build numbers -/

/-- `/_build(\d{1,9})(?=[_.])/i` at the start of a text. -/
def buildHere (s : Text) : Option Nat := do
  let rest ← dropPrefixIgnoreCase "_build".toList s
  let digits := rest.takeWhile Char.isDigit
  let after := (rest.dropWhile Char.isDigit).head?
  if 1 ≤ digits.length ∧ digits.length ≤ 9 ∧ (after = some '_' ∨ after = some '.') then
    some (decimal digits)
  else none

/-- The first match. -/
def findBuild : Text → Option Nat
  | [] => none
  | c :: s => (buildHere (c :: s)).or (findBuild s)

/-- The build number in the name of the file. -/
def parseArtifactBuildNumber (artifact : ArtifactRow) : Option Nat :=
  [artifact.fileName, artifact.sourceUrl, some artifact.downloadUrl].findSome? fun candidate =>
    let name :=
      (((cut (fun c => c == '?' || c == '#') (candidate.getD [])).1).splitOn '/').getLastD []
    (findBuild name).filter (0 < ·)

end ChordV.Api.ClientUpdates
