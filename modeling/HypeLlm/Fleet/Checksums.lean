import HypeLlm.Fleet.ChecksumRecords
import HypeLlm.Lib.Runs

/-!
# The checksum that is kept of an artifact

Unless an artifact is pinned, the router learns its image from the first observation in which hosts
report it present and verified and do not disagree.  What is learned is appended to the log before it is
kept, and on a restart the first record of an artifact stands.  From then on the image decides, not what
a host says of its own check.

* `learn` — what one observation teaches;
* `keepChecksums`, `replay` — what is kept of it, and what is read back;
* **`kept_is_anchor`** — what is kept never changes, was verified and agreed on when it was learned, and
  no host with another image is ready or copied from.
-/

namespace HypeLlm.Fleet

open HypeLlm.Routing HypeLlm.Runs

/-- Nothing is declared. -/
def FleetConfig.empty : FleetConfig :=
  { hosts := [], accelerators := [], deployments := [], artifacts := [], observationMaxAgeMs := fun _ => none
    policyFor := fun _ => ⟨12, 250, 2, false, 16 * 1024 * 1024 * 1024, false⟩
    accelerators_nodup := List.nodup_nil, deployments_nodup := List.nodup_nil }

/-- Nothing was observed. -/
def FleetSnapshot.empty : FleetSnapshot where
  config := .empty
  inventory := ⟨fun _ => none, fun _ => none, fun _ => none, fun _ _ => none⟩
  observedAtMs := 0
  observed := false
  leases := fun _ => none
  evicting := fun _ => false
  readySinceMs := fun _ => none
  unmanaged := fun _ => false
  cooldownUntilMs := fun _ => none
  activationBudget := fun _ => none
  observedTimings := fun _ => .none
  digestAgreed := true
  agentsReachable := true
  deploymentCapabilities := fun _ => none
  learnedChecksums := fun _ => none

/-! ### Reports -/

/-- What the hosts report in one observation.  Their identifiers are valid, or the agent's answer would
have been refused. -/
structure Report where
  hosts : HostId → Option ObservedHost
  accelerators : AcceleratorId → Option ℕ
  deployments : DeploymentId → Option ObservedDeployment
  placements : List ((ArtifactId × HostId) × Placement)
  /-- In the order of artifacts, and of hosts for each. -/
  sorted : placements.Pairwise fun a b => a.1.1 < b.1.1 ∨ a.1.1 = b.1.1 ∧ a.1.2 < b.1.2
  artifactsValid : ∀ e ∈ placements, validId e.1.1 = true
  hostsValid : ∀ e ∈ placements, validId e.1.2 = true
  imagesValid : ∀ e ∈ placements, ∀ image, e.2.imageId = some image → validImageId image = true

namespace Report

variable (report : Report)

def placement (artifact : ArtifactId) (host : HostId) : Option Placement :=
  (report.placements.find? fun e => e.1 = (artifact, host)).map Prod.snd

def inventory : Inventory := ⟨report.hosts, report.accelerators, report.deployments, report.placement⟩

theorem nodup : (report.placements.map Prod.fst).Nodup := by
  rw [List.Nodup, List.pairwise_map]
  refine report.sorted.imp ?_
  intro a b hlt heq
  rw [heq] at hlt
  rcases hlt with hlt | ⟨-, hlt⟩
  · exact String.lt_irrefl _ hlt
  · exact String.lt_irrefl _ hlt

theorem placement_of_mem {e : (ArtifactId × HostId) × Placement} (h : e ∈ report.placements) :
    report.placement e.1.1 e.1.2 = some e.2 := by
  rw [placement]
  have hfind : (report.placements.find? fun x => x.1 = e.1) = some e := Lists.find?_key report.nodup h
  rw [show (e.1.1, e.1.2) = e.1 from rfl, hfind]
  rfl

theorem mem_of_placement {artifact : ArtifactId} {host : HostId} {placement : Placement}
    (h : report.placement artifact host = some placement) : ((artifact, host), placement) ∈ report.placements := by
  rw [Report.placement, Option.map_eq_some_iff] at h
  obtain ⟨e, hfind, rfl⟩ := h
  have hkey : e.1 = (artifact, host) := by simpa using List.find?_some hfind
  rw [← hkey]
  exact List.mem_of_find?_eq_some hfind

/-- A host reports the artifact present and verified, with its image. -/
def Verified (artifact : ArtifactId) (host : HostId) (image : ImageId) : Prop :=
  ∃ placement, report.placement artifact host = some placement ∧ placement.present = true ∧
    placement.verified = true ∧ placement.imageId = some image

end Report

/-! ### Learning -/

/-- What one observation teaches. -/
structure Learning where
  learned : List (ArtifactId × ImageId × HostId)
  /-- Verified hosts disagree. -/
  conflicts : List ArtifactId
  deriving Repr, DecidableEq

section Learning

variable (config : FleetConfig) (kept : ArtifactId → Option ImageId)

/-- A placement is looked at if its artifact is declared, neither pinned nor kept, and it is present and
verified with an image. -/
def considered (e : (ArtifactId × HostId) × Placement) : Option (ArtifactId × ImageId × HostId) :=
  match config.artifact e.1.1 with
  | none => none
  | some declared =>
    if declared.imageId.isSome || (kept e.1.1).isSome then none
    else if !(e.2.present && e.2.verified) then none
    else e.2.imageId.map fun image => (e.1.1, image, e.1.2)

/-- The distinct images seen of an artifact. -/
def imagesOf (seen : List (ArtifactId × ImageId × HostId)) (artifact : ArtifactId) : List ImageId :=
  ((seen.filter fun e => e.1 = artifact).map fun e => e.2.1).dedup

/-- One image is learned, from the first host that reports it. -/
def learnedOf (seen : List (ArtifactId × ImageId × HostId)) (artifact : ArtifactId) :
    Option (ArtifactId × ImageId × HostId) :=
  match imagesOf seen artifact with
  | [image] => (seen.find? fun e => e.1 = artifact).map fun e => (artifact, image, e.2.2)
  | _ => none

def learn (report : Report) : Learning :=
  let seen := report.placements.filterMap (considered config kept)
  let artifacts := (seen.map Prod.fst).dedup
  { learned := artifacts.filterMap (learnedOf seen)
    conflicts := artifacts.filter fun artifact => 2 ≤ (imagesOf seen artifact).length }

end Learning

/-! ### Keeping -/

/-- How an append ends.  One that fails is cut off the log again; where that fails too, the log refuses
appends until it is opened again, and the record may have survived. -/
inductive AppendOutcome where
  | written
  | failed
  | stuck (survives : Bool)
  deriving Repr, DecidableEq

/-- One observation, and how the appends it makes end. -/
structure Pass where
  config : FleetConfig
  report : Report
  /-- What else the snapshot holds. -/
  belief : FleetSnapshot
  append : ArtifactId → AppendOutcome
  wallMillis : ArtifactId → ℕ

structure ChecksumRouter where
  /-- The payloads of the checksum records in the log. -/
  log : List (List UInt8)
  /-- The log refuses appends. -/
  stuck : Bool
  kept : ArtifactId → Option ImageId
  snapshot : FleetSnapshot

namespace ChecksumRouter

variable {F : Type} (floats : Json.FloatText F)

/-- A record is appended first, and kept only then. -/
def keep (p : Pass) (s : ChecksumRouter) (learned : ArtifactId × ImageId × HostId) : ChecksumRouter :=
  let record : ChecksumRecord := ⟨learned.1, learned.2.1, learned.2.2, p.wallMillis learned.1⟩
  if s.stuck then s
  else
    match p.append learned.1 with
    | .written =>
      { s with
        log := s.log ++ [encodeRecord floats record]
        kept := Function.update s.kept learned.1 (some learned.2.1) }
    | .failed => s
    | .stuck survives =>
      { s with log := if survives then s.log ++ [encodeRecord floats record] else s.log, stuck := true }

def keepChecksums (p : Pass) (s : ChecksumRouter) : ChecksumRouter :=
  (learn p.config s.kept p.report).learned.foldl (keep floats p) s

/-- The snapshot carries what is kept. -/
def observe (p : Pass) (s : ChecksumRouter) : ChecksumRouter :=
  let s' := s.keepChecksums floats p
  { s' with
    snapshot :=
      { p.belief with config := p.config, inventory := p.report.inventory, learnedChecksums := s'.kept } }

/-- The first record of an artifact stands. -/
def restore (kept : ArtifactId → Option ImageId) (record : ChecksumRecord) : ArtifactId → Option ImageId :=
  if (kept record.artifact).isSome then kept
  else Function.update kept record.artifact (some record.imageId)

def replay (log : List (List UInt8)) : ArtifactId → Option ImageId :=
  (log.filterMap (decodeRecord floats)).foldl restore fun _ => none

def boot : ChecksumRouter := ⟨[], false, fun _ => none, .empty⟩

/-- A new router reads the log; the store may be the old one, which still refuses appends. -/
def recover (reopened : Bool) (s : ChecksumRouter) : ChecksumRouter :=
  { log := s.log, stuck := s.stuck && !reopened, kept := replay floats s.log, snapshot := .empty }

inductive ChecksumEvent where
  | observe (p : Pass)
  | restart (reopened : Bool)

def step (s : ChecksumRouter) : ChecksumEvent → ChecksumRouter
  | .observe p => s.observe floats p
  | .restart reopened => s.recover floats reopened

end ChecksumRouter

/-! ### What is learned -/

/-- The hosts that report the artifact verified agree on the image, there is one, and the artifact is
declared and not pinned. -/
structure Pass.Teaches (p : Pass) (artifact : ArtifactId) (image : ImageId) : Prop where
  unpinned : ∃ declared, p.config.artifact artifact = some declared ∧ declared.imageId = none
  verified : ∃ host, p.report.Verified artifact host image
  agreed : ∀ host image', p.report.Verified artifact host image' → image' = image

section Learn

variable {config : FleetConfig} {kept : ArtifactId → Option ImageId} {report : Report}

theorem considered_eq_some {e : (ArtifactId × HostId) × Placement} {seen : ArtifactId × ImageId × HostId} :
    considered config kept e = some seen ↔
      (∃ declared, config.artifact e.1.1 = some declared ∧ declared.imageId = none) ∧ kept e.1.1 = none ∧
        e.2.present = true ∧ e.2.verified = true ∧ e.2.imageId = some seen.2.1 ∧
        seen.1 = e.1.1 ∧ seen.2.2 = e.1.2 := by
  obtain ⟨artifact, image, host⟩ := seen
  rw [considered]
  cases hdeclared : config.artifact e.1.1 with
  | none => simp
  | some declared =>
    cases hpin : declared.imageId with
    | some pinned => simp [hpin]
    | none =>
      cases hkept : kept e.1.1 with
      | some image => simp [hpin]
      | none =>
        cases e.2.present <;> cases e.2.verified <;> simp [hpin]
        exact fun _ => and_congr eq_comm eq_comm

/-- What is seen of an artifact is what is verified of it, where nothing is pinned or kept. -/
theorem mem_seen {artifact : ArtifactId} {image : ImageId} {host : HostId} :
    (artifact, image, host) ∈ report.placements.filterMap (considered config kept) ↔
      (∃ declared, config.artifact artifact = some declared ∧ declared.imageId = none) ∧
        kept artifact = none ∧ report.Verified artifact host image := by
  rw [List.mem_filterMap]
  constructor
  · rintro ⟨e, he, hseen⟩
    obtain ⟨hunpinned, hkept, hpresent, hverified, himage, hartifact, hhost⟩ := considered_eq_some.1 hseen
    simp only at hartifact hhost himage
    rw [hartifact, hhost]
    exact ⟨hunpinned, hkept, e.2, report.placement_of_mem he, hpresent, hverified, himage⟩
  · rintro ⟨hunpinned, hkept, placement, hplacement, hpresent, hverified, himage⟩
    exact ⟨((artifact, host), placement), report.mem_of_placement hplacement,
      considered_eq_some.2 ⟨hunpinned, hkept, hpresent, hverified, himage, rfl, rfl⟩⟩

theorem mem_imagesOf {seen : List (ArtifactId × ImageId × HostId)} {artifact : ArtifactId} {image : ImageId} :
    image ∈ imagesOf seen artifact ↔ ∃ host, (artifact, image, host) ∈ seen := by
  rw [imagesOf, List.mem_dedup, List.mem_map]
  constructor
  · rintro ⟨⟨artifact', image', host⟩, he, rfl⟩
    obtain ⟨hmem, hartifact⟩ := List.mem_filter.1 he
    rw [decide_eq_true_eq] at hartifact
    simp only at hartifact
    subst hartifact
    exact ⟨host, hmem⟩
  · rintro ⟨host, hmem⟩
    exact ⟨(artifact, image, host), List.mem_filter.2 ⟨hmem, by simp⟩, rfl⟩

theorem learnedOf_eq_some {seen : List (ArtifactId × ImageId × HostId)} {artifact artifact' : ArtifactId}
    {image : ImageId} {host : HostId} (h : learnedOf seen artifact = some (artifact', image, host)) :
    artifact' = artifact ∧ imagesOf seen artifact = [image] ∧ ∃ image', (artifact, image', host) ∈ seen := by
  rw [learnedOf] at h
  split at h
  · rename_i image' himages
    rw [Option.map_eq_some_iff] at h
    obtain ⟨e, hfind, heq⟩ := h
    simp only [Prod.mk.injEq] at heq
    obtain ⟨rfl, rfl, rfl⟩ := heq
    have hkey : e.1 = artifact := by simpa using List.find?_some hfind
    refine ⟨rfl, himages, e.2.1, ?_⟩
    rw [← hkey]
    exact List.mem_of_find?_eq_some hfind
  · cases h

/-- **What one observation teaches** was verified and agreed on. -/
theorem teaches_of_learned {p : Pass} {kept : ArtifactId → Option ImageId} {artifact : ArtifactId}
    {image : ImageId} {host : HostId} (h : (artifact, image, host) ∈ (learn p.config kept p.report).learned) :
    p.Teaches artifact image ∧ kept artifact = none ∧
      ∀ at_, (⟨artifact, image, host, at_⟩ : ChecksumRecord).Valid := by
  obtain ⟨artifact', -, hlearned⟩ := List.mem_filterMap.1 h
  obtain ⟨rfl, himages, image', hseen⟩ := learnedOf_eq_some hlearned
  have hmem : image ∈ imagesOf (p.report.placements.filterMap (considered p.config kept)) artifact := by
    rw [himages]
    exact List.mem_singleton_self _
  obtain ⟨verifier, hverifier⟩ := mem_imagesOf.1 hmem
  obtain ⟨hunpinned, hkept, hverified⟩ := mem_seen.1 hverifier
  refine ⟨⟨hunpinned, ⟨verifier, hverified⟩, fun other image'' hother => ?_⟩, hkept, fun _ => ?_⟩
  · have hall := mem_imagesOf.2 ⟨other, mem_seen.2 ⟨hunpinned, hkept, hother⟩⟩
    rw [himages, List.mem_singleton] at hall
    exact hall
  · obtain ⟨placement, hplacement, -, -, himage⟩ := hverified
    obtain ⟨-, -, placement', hplacement', -⟩ := mem_seen.1 hseen
    have hartifact := p.report.artifactsValid _ (p.report.mem_of_placement hplacement)
    have hhost := p.report.hostsValid _ (p.report.mem_of_placement hplacement')
    exact
      { artifact := hartifact
        imageId := p.report.imagesValid _ (p.report.mem_of_placement hplacement) image himage
        host := hhost }

/-- Nothing is learned twice. -/
theorem learned_nodup : ((learn config kept report).learned.map Prod.fst).Nodup := by
  have hsub : ∀ {seen : List (ArtifactId × ImageId × HostId)} (artifacts : List ArtifactId),
      ((artifacts.filterMap (learnedOf seen)).map Prod.fst).Sublist artifacts := by
    intro seen artifacts
    induction artifacts with
    | nil => exact List.Sublist.refl _
    | cons artifact artifacts ih =>
      cases hlearned : learnedOf seen artifact with
      | none =>
        rw [List.filterMap_cons_none hlearned]
        exact ih.cons _
      | some learned =>
        obtain ⟨artifact', image, host⟩ := learned
        rw [List.filterMap_cons_some hlearned, List.map_cons, (learnedOf_eq_some hlearned).1]
        exact ih.cons_cons _
  exact List.Nodup.sublist (hsub _) (List.nodup_dedup _)

end Learn

/-! ### What is kept -/

namespace ChecksumRouter

variable {F : Type} {floats : Json.FloatText F} {s : ChecksumRouter}

theorem restore_apply (kept : ArtifactId → Option ImageId) (r : ChecksumRecord) (artifact : ArtifactId) :
    restore kept r artifact = (kept artifact).or (if artifact = r.artifact then some r.imageId else none) := by
  rw [restore]
  by_cases hartifact : artifact = r.artifact
  · subst hartifact
    cases hkept : kept r.artifact with
    | none => simp
    | some image => simp [hkept]
  · rw [if_neg hartifact, Option.or_none]
    split
    · rfl
    · exact Function.update_of_ne hartifact _ _

/-- A record more at the end of the log counts only if there was none of the artifact. -/
theorem replay_concat {r : ChecksumRecord} (hr : r.Valid) (log : List (List UInt8)) (artifact : ArtifactId) :
    replay floats (log ++ [encodeRecord floats r]) artifact =
      (replay floats log artifact).or (if artifact = r.artifact then some r.imageId else none) := by
  have hrecord : [encodeRecord floats r].filterMap (decodeRecord floats) =
      [{ r with atMillis := min r.atMillis i64Max }] := by
    rw [List.filterMap_cons_some (decode_encode hr), List.filterMap_nil]
  rw [replay, List.filterMap_append, hrecord, List.foldl_append, List.foldl_cons, List.foldl_nil, restore_apply]
  rfl

theorem replay_le_concat {r : ChecksumRecord} (hr : r.Valid) {log : List (List UInt8)} {artifact : ArtifactId}
    {image : ImageId} (h : replay floats log artifact = some image) :
    replay floats (log ++ [encodeRecord floats r]) artifact = some image := by
  rw [replay_concat hr, h, Option.some_or]

variable (floats) in
/-- What is kept is in the log, and all that is in it unless the log is stuck; and it was taught. -/
structure Sound (taught : ArtifactId → ImageId → Prop) (s : ChecksumRouter) : Prop where
  durable : ∀ artifact image, s.kept artifact = some image → replay floats s.log artifact = some image
  exact_ : s.stuck = false → s.kept = replay floats s.log
  taught : ∀ artifact image, replay floats s.log artifact = some image → taught artifact image

variable {taught : ArtifactId → ImageId → Prop}

/-- Learning one checksum keeps what was kept. -/
theorem Sound.keep (h : s.Sound floats taught) {p : Pass} {artifact : ArtifactId} {image : ImageId} {host : HostId}
    (hkept : s.kept artifact = none) (htaught : taught artifact image)
    (hvalid : ∀ at_, (⟨artifact, image, host, at_⟩ : ChecksumRecord).Valid) :
    (s.keep floats p (artifact, image, host)).Sound floats taught ∧
      (∀ other, other ≠ artifact → (s.keep floats p (artifact, image, host)).kept other = s.kept other) ∧
      ∀ other image', s.kept other = some image' →
        (s.keep floats p (artifact, image, host)).kept other = some image' := by
  rw [ChecksumRouter.keep]
  split
  · exact ⟨h, fun _ _ => rfl, fun _ _ hother => hother⟩
  · rename_i hfree
    have hexact : s.kept = replay floats s.log := h.exact_ (Bool.not_eq_true _ ▸ hfree)
    have hreplay : ∀ other, replay floats
        (s.log ++ [encodeRecord floats ⟨artifact, image, host, p.wallMillis artifact⟩]) other =
          Function.update s.kept artifact (some image) other := by
      intro other
      rw [replay_concat (hvalid _), ← hexact]
      by_cases hother : other = artifact
      · rw [hother, hkept, Function.update_self]
        simp
      · rw [Function.update_of_ne hother]
        simp [hother]
    have htaught' : ∀ other image', replay floats
        (s.log ++ [encodeRecord floats ⟨artifact, image, host, p.wallMillis artifact⟩]) other = some image' →
          taught other image' := by
      intro other image' hother
      rw [hreplay] at hother
      by_cases hsame : other = artifact
      · rw [hsame, Function.update_self, Option.some.injEq] at hother
        rwa [hsame, ← hother]
      · rw [Function.update_of_ne hsame, hexact] at hother
        exact h.taught other image' hother
    cases p.append artifact with
    | written =>
      refine ⟨⟨fun other image' hother => ?_, fun _ => ?_, htaught'⟩, fun other hother => ?_,
        fun other image' hother => ?_⟩
      · exact (hreplay other).trans hother
      · exact (funext hreplay).symm
      · exact Function.update_of_ne hother _ _
      · have hne : other ≠ artifact := fun hsame => by
          rw [hsame, hkept] at hother
          cases hother
        exact (Function.update_of_ne hne _ _).trans hother
    | failed => exact ⟨h, fun _ _ => rfl, fun _ _ hother => hother⟩
    | stuck survives =>
      refine ⟨⟨fun other image' hother => ?_, fun hstuck => ?_, fun other image' hother => ?_⟩, fun _ _ => rfl,
        fun _ _ hother => hother⟩
      · cases survives with
        | false => exact h.durable other image' hother
        | true => exact replay_le_concat (hvalid _) (h.durable other image' hother)
      · cases hstuck
      · cases survives with
        | false => exact h.taught other image' hother
        | true => exact htaught' other image' hother

/-- So does a whole pass, as nothing is learned twice. -/
theorem Sound.foldl_keep {p : Pass} (learned : List (ArtifactId × ImageId × HostId))
    (hnodup : (learned.map Prod.fst).Nodup)
    (hlearned : ∀ e ∈ learned, taught e.1 e.2.1 ∧
      ∀ at_, (⟨e.1, e.2.1, e.2.2, at_⟩ : ChecksumRecord).Valid) (s : ChecksumRouter)
    (h : s.Sound floats taught) (hkept : ∀ e ∈ learned, s.kept e.1 = none) :
    (learned.foldl (ChecksumRouter.keep floats p) s).Sound floats taught ∧
      ∀ artifact image, s.kept artifact = some image →
        (learned.foldl (ChecksumRouter.keep floats p) s).kept artifact = some image := by
  induction learned generalizing s with
  | nil => exact ⟨h, fun _ _ hkept => hkept⟩
  | cons e learned ih =>
    obtain ⟨artifact, image, host⟩ := e
    rw [List.map_cons, List.nodup_cons] at hnodup
    obtain ⟨htaught, hvalid⟩ := hlearned _ List.mem_cons_self
    obtain ⟨hsound, hothers, hmono⟩ :=
      h.keep (p := p) (hkept _ List.mem_cons_self) htaught hvalid
    have hrest : ∀ e ∈ learned, (s.keep floats p (artifact, image, host)).kept e.1 = none := by
      intro e he
      have hne : e.1 ≠ artifact := by
        rintro rfl
        exact hnodup.1 (List.mem_map.2 ⟨e, he, rfl⟩)
      rw [hothers e.1 hne]
      exact hkept e (List.mem_cons_of_mem _ he)
    obtain ⟨hfinal, hfinalMono⟩ := ih hnodup.2 (fun e he => hlearned e (List.mem_cons_of_mem _ he)) _ hsound hrest
    exact ⟨hfinal, fun artifact' image' hkept' => hfinalMono artifact' image' (hmono artifact' image' hkept')⟩

/-! ### Runs -/

/-- The pass is one of the run. -/
def Taught (es : List ChecksumEvent) (artifact : ArtifactId) (image : ImageId) : Prop :=
  ∃ p, .observe p ∈ es ∧ p.Teaches artifact image

/-- The snapshot carries what is kept, unless nothing was observed yet. -/
def Carried (s : ChecksumRouter) : Prop :=
  s.snapshot = .empty ∨ s.snapshot.learnedChecksums = s.kept

theorem Sound.mono {taught' : ArtifactId → ImageId → Prop} (hsub : ∀ artifact image, taught artifact image →
    taught' artifact image) (h : s.Sound floats taught) : s.Sound floats taught' :=
  ⟨h.durable, h.exact_, fun artifact image hreplay => hsub _ _ (h.taught artifact image hreplay)⟩

/-- **One step** keeps what is kept. -/
theorem Sound.step {es : List ChecksumEvent} (h : s.Sound floats (Taught es)) (e : ChecksumEvent) :
    (s.step floats e).Sound floats (Taught (es ++ [e])) ∧ (s.step floats e).Carried ∧
      ∀ artifact image, s.kept artifact = some image → (s.step floats e).kept artifact = some image := by
  have hmore : s.Sound floats (Taught (es ++ [e])) := by
    refine h.mono ?_
    rintro artifact image ⟨p, hp, hteaches⟩
    exact ⟨p, List.mem_append_left _ hp, hteaches⟩
  cases e with
  | observe p =>
    have hfold := hmore.foldl_keep (p := p) (learn p.config s.kept p.report).learned learned_nodup
      (fun e he => by
        obtain ⟨hteaches, -, hvalid⟩ := teaches_of_learned he
        exact ⟨⟨p, by simp, hteaches⟩, hvalid⟩)
      s (fun e he => (teaches_of_learned he).2.1)
    exact ⟨⟨hfold.1.durable, hfold.1.exact_, hfold.1.taught⟩, .inr rfl, hfold.2⟩
  | restart reopened =>
    refine ⟨⟨fun _ _ hkept => hkept, fun _ => rfl, hmore.taught⟩, .inl rfl, ?_⟩
    exact fun artifact image hkept => h.durable artifact image hkept

variable (floats) in
theorem sound_run (es : List ChecksumEvent) :
    (run (step floats) boot es).Sound floats (Taught es) ∧ (run (step floats) boot es).Carried := by
  induction es using List.reverseRecOn with
  | nil => exact ⟨⟨fun _ _ h => (nomatch h), fun _ => rfl, fun _ _ h => nomatch h⟩, .inl rfl⟩
  | append_singleton es e ih =>
    rw [run_snoc]
    obtain ⟨hsound, hcarried, -⟩ := ih.1.step e
    exact ⟨hsound, hcarried⟩

theorem kept_run (es fs : List ChecksumEvent) {artifact : ArtifactId} {image : ImageId}
    (h : (run (step floats) boot es).kept artifact = some image) :
    (run (step floats) boot (es ++ fs)).kept artifact = some image := by
  induction fs using List.reverseRecOn with
  | nil => rwa [List.append_nil]
  | append_singleton fs e ih =>
    rw [← List.append_assoc, run_snoc]
    exact ((sound_run floats (es ++ fs)).1.step e).2.2 artifact image ih

end ChecksumRouter

/-- A host that does not report the image is neither ready with it nor copied from. -/
def FleetSnapshot.Refuses (s : FleetSnapshot) (artifact : ArtifactId) (image : ImageId) : Prop :=
  ∀ host, (∀ placement, s.inventory.artifacts artifact host = some placement → placement.imageId ≠ some image) →
    s.artifactReady artifact host = false ∧ ∀ destination, s.copySource artifact destination ≠ some host

/-- Whoever is copied from is ready. -/
theorem FleetSnapshot.ready_of_copySource {s : FleetSnapshot} {artifact : ArtifactId} {destination host : HostId}
    (h : s.copySource artifact destination = some host) : s.artifactReady artifact host = true := by
  rw [copySource, Option.bind_eq_bind, Option.bind_eq_some_iff] at h
  obtain ⟨_, -, h⟩ := h
  rw [Option.bind_eq_bind, Option.bind_eq_some_iff] at h
  obtain ⟨a, -, h⟩ := h
  rw [Option.bind_eq_bind, Option.bind_eq_some_iff] at h
  obtain ⟨source, hfind, hsource⟩ := h
  have hready := List.find?_some hfind
  simp only [Bool.and_eq_true] at hready
  obtain rfl : source.id = host := Option.some.inj hsource
  exact hready.2

/-- What an artifact is held to is all that makes a host ready. -/
theorem FleetSnapshot.refuses_of_keptChecksum {s : FleetSnapshot} {artifact : ArtifactId} {image : ImageId}
    (h : s.keptChecksum artifact = some image) : s.Refuses artifact image := by
  intro host hother
  have hready : s.artifactReady artifact host = false := by
    rw [artifactReady]
    cases hplacement : s.inventory.artifacts artifact host with
    | none => rfl
    | some placement =>
      simp only [h, decide_eq_false (hother placement hplacement), Bool.and_false]
  refine ⟨hready, fun destination hsource => ?_⟩
  rw [ready_of_copySource hsource] at hready
  cases hready

namespace ChecksumRouter

open Json (FloatText)

/-- The image that a snapshot holds an artifact to when this one is kept: the pinned one goes first. -/
def heldTo (s : ChecksumRouter) (artifact : ArtifactId) (image : ImageId) : ImageId :=
  ((s.snapshot.config.artifact artifact).bind Artifact.imageId).getD image

/-- All passes of a run have one configuration. -/
def SameConfig (es : List ChecksumEvent) : Prop :=
  ∀ p q, .observe p ∈ es → .observe q ∈ es → p.config = q.config

/-- The configuration of the snapshot is that of a pass, unless nothing was observed yet. -/
theorem snapshot_config {F : Type} (floats : FloatText F) (es : List ChecksumEvent) :
    (run (step floats) boot es).snapshot = .empty ∨
      ∃ p, .observe p ∈ es ∧ (run (step floats) boot es).snapshot.config = p.config := by
  induction es using List.reverseRecOn with
  | nil => exact .inl rfl
  | append_singleton es e ih =>
    rw [run_snoc]
    cases e with
    | observe p => exact .inr ⟨p, by simp, rfl⟩
    | restart reopened => exact .inl rfl

/-- **The kept checksum is an anchor.**  Once it is kept, it stays, in memory and in the log; it was
learned in a pass whose verified hosts agreed on it; and no host without the image is ready with the
artifact or copied from — the image that is kept, or the one that a configuration pinned since then. -/
theorem kept_is_anchor {F : Type} (floats : FloatText F) (es fs : List ChecksumEvent) {artifact : ArtifactId}
    {image : ImageId} (h : (run (step floats) boot es).kept artifact = some image) :
    let s := run (step floats) boot (es ++ fs)
    s.kept artifact = some image ∧ replay floats s.log artifact = some image ∧
      (∃ p, .observe p ∈ es ∧ p.Teaches artifact image) ∧
      s.snapshot.Refuses artifact (s.heldTo artifact image) ∧
      (SameConfig (es ++ fs) → s.snapshot.Refuses artifact image) := by
  intro s
  have hkept : s.kept artifact = some image := kept_run es fs h
  obtain ⟨hsound, -⟩ := sound_run floats es
  obtain ⟨hsound', hcarried⟩ := sound_run floats (es ++ fs)
  obtain ⟨p, hp, hteaches⟩ := hsound.taught artifact image (hsound.durable artifact image h)
  have hempty : ∀ image', FleetSnapshot.Refuses .empty artifact image' := by
    intro image' host _
    refine ⟨rfl, fun destination hsource => ?_⟩
    cases hsource
  have hrefuses : s.snapshot.Refuses artifact (s.heldTo artifact image) := by
    rcases hcarried with hs | hs
    · rw [show s.snapshot = .empty from hs]
      exact hempty _
    · refine FleetSnapshot.refuses_of_keptChecksum ?_
      have hlearned : s.snapshot.learnedChecksums artifact = some image := by
        rw [show s.snapshot.learnedChecksums = s.kept from hs]
        exact hkept
      rw [FleetSnapshot.keptChecksum, hlearned, heldTo]
      cases (s.snapshot.config.artifact artifact).bind Artifact.imageId with
      | none => rfl
      | some pinned => rfl
  refine ⟨hkept, hsound'.durable artifact image hkept, ⟨p, hp, hteaches⟩, hrefuses, fun hsame => ?_⟩
  -- what is learned is not pinned, and nothing pins it later
  rcases snapshot_config floats (es ++ fs) with hs | ⟨q, hq, hconfig⟩
  · rw [show s.snapshot = .empty from hs]
    exact hempty image
  · obtain ⟨declared, hdeclared, hpin⟩ := hteaches.unpinned
    have hconfigs : s.snapshot.config = p.config :=
      hconfig.trans (hsame q p hq (List.mem_append_left _ hp))
    have hheld : s.heldTo artifact image = image := by
      rw [heldTo, hconfigs, hdeclared, Option.bind_some, hpin]
      rfl
    rwa [hheld] at hrefuses

namespace Sample

def image : ImageId := "sha256:0123456789abcdef0123456789abcdef0123456789abcdef0123456789abcdef"

def other : ImageId := "sha256:fedcba9876543210fedcba9876543210fedcba9876543210fedcba9876543210"

theorem image_valid : validImageId image = true := by decide +kernel

theorem other_valid : validImageId other = true := by decide +kernel

theorem one_concurrent : 1 ≤ Words.u32Max := by decide

/-- One artifact, and two hosts of its architecture. -/
def oneModel : FleetConfig :=
  { FleetConfig.empty with
    hosts :=
      [⟨"a", "agent", .aarch64, .enabled, 0, 1, one_concurrent⟩, ⟨"b", "agent", .aarch64, .enabled, 0, 1, one_concurrent⟩]
    artifacts := [⟨"model", .aarch64, 0, none⟩] }

/-- Two hosts report the artifact verified, the second with the same image or with another. -/
def report (same : Bool) : Report where
  hosts := fun _ => some ⟨true, 0⟩
  accelerators := fun _ => none
  deployments := fun _ => none
  placements :=
    [(("model", "a"), ⟨true, true, some image⟩), (("model", "b"), ⟨true, true, some (if same then image else other)⟩)]
  sorted := by cases same <;> decide
  artifactsValid := by cases same <;> decide
  hostsValid := by cases same <;> decide
  imagesValid := by
    intro e he shown hshown
    cases same <;> fin_cases he <;> obtain rfl := Option.some.inj hshown
    · exact image_valid
    · exact other_valid
    · exact image_valid
    · exact image_valid

def pass (same : Bool) : Pass := ⟨oneModel, report same, .empty, fun _ => .written, fun _ => 7⟩

/-- Both hosts agree, the router is started again, and one of them shows another image. -/
def agreed : List ChecksumEvent := [.observe (pass true)]

def changed : List ChecksumEvent := [.restart true, .observe (pass false)]

theorem changed_host_refused :
    let s := run (step Json.oneAndAHalf) boot (agreed ++ changed)
    s.kept "model" = some image ∧ s.snapshot.artifactReady "model" "b" = false ∧
      s.snapshot.copySource "model" "a" ≠ some "b" := by
  have hkept : (run (step Json.oneAndAHalf) boot agreed).kept "model" = some image := by decide +kernel
  obtain ⟨hstays, -, -, -, hrefuses⟩ := kept_is_anchor Json.oneAndAHalf agreed changed hkept
  have hsame : SameConfig (agreed ++ changed) := by
    have hconfig : ∀ p, .observe p ∈ agreed ++ changed → p.config = oneModel := by
      intro p hp
      simp only [agreed, changed, List.cons_append, List.nil_append, List.mem_cons, List.not_mem_nil, or_false,
        ChecksumEvent.observe.injEq, reduceCtorEq, false_or] at hp
      rcases hp with rfl | rfl
      · rfl
      · rfl
    exact fun p q hp hq => (hconfig p hp).trans (hconfig q hq).symm
  obtain ⟨hready, hsource⟩ := hrefuses hsame "b" (fun placement hplacement himage => by
    have hshown : (pass false).report.placement "model" "b" = some placement := hplacement
    obtain rfl : ⟨true, true, some other⟩ = placement := Option.some.inj hshown
    revert himage
    decide)
  exact ⟨hstays, hready, hsource "a"⟩

end Sample

end ChecksumRouter

end HypeLlm.Fleet
