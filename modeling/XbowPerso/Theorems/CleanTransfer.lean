import XbowPerso.Lemmas.CleanTransfer
import XbowPerso.Theorems.PreparationTickets

/-!
# The inert transfer ends cleanly

With every request and every reply delivered and a runner that is ready, a mapping that is accepted is transferred exactly when none
of its keys ends with a slash: the plan has the key without its slash, and the transfer looks the content up under the path of the
plan. On every channel, a mapping without such a key ends in a receipt or in a `StrixInertTransferError`.
-/

namespace XbowPerso

namespace InertTransfer

open RunnerRpc
open ManifestAdmission (AdmissionPlan EntryPlan filePlan PlanPath PlannedEntries normalizeEntryPath)
open ManifestTicket (Ticket isImage portsError ttlSeconds clockSkewSeconds maxClock)
open Dialogue

variable {crypto : Crypto} {cfg : Config} {sha : Sha256} {args : Arguments} {tokens : Tokens}
  {circumstances : Nat → Circumstances} {s : State}

/-! ## A runner that is ready -/

/-- What the broker sees of a reply that is delivered. -/
def posted : Reply → Posted
  | .error status _ => .httpError status
  | .noReply => .uncertain "runner outcome unknown"
  | r => .reply r

/-- The channel that delivers everything: the `n`-th request meets the `n`-th circumstances. -/
def serve (crypto : Crypto) (cfg : Config) (circumstances : Nat → Circumstances) (op : Operation) (x : Nat × State) :
    Posted × (Nat × State) :=
  (posted (handle crypto cfg x.2 op (circumstances x.1)).1, x.1 + 1, (handle crypto cfg x.2 op (circumstances x.1)).2)

/-- What a transfer needs besides its files: the keys, an authorised contract, an image and ports that are well formed, a runner in
inert mode that shares the key for tickets, has room for a session and for the ticket, and has not seen the ticket, and clocks by
which the ticket and the session are in time. -/
structure Ready (cfg : Config) (args : Arguments) (tokens : Tokens) (circumstances : Nat → Circumstances) (s : State) where
  secret : ManifestTicket.Secret
  keys : keys args = .ok secret
  shared : cfg.admissionSecret = some secret
  authorized : args.authorized = true
  contract : isHexOfLength 64 args.contractHash = true
  image : String
  image_eq : args.image = .text image
  image_ok : isImage args.image = true
  ports : portsError args.exposedPorts = none
  now : ℚ
  clock : args.clock = some now
  clock_le : 1 ≤ now ∧ now + ttlSeconds ≤ maxClock
  wall : ℚ
  wall_eq : (circumstances 0).wall = some wall
  wall_ok : 1 ≤ wall ∧ now ≤ wall + clockSkewSeconds ∧ wall < ⌊now⌋ + ttlSeconds
  inert : cfg.activeExecution = false
  store : cfg.hasReplayStore = true
  start : ℚ
  start_eq : (circumstances 0).monotonic = some start
  monotonic : ∀ n, ∃ t, (circumstances n).monotonic = some t ∧ t < start + preparedSessionTtl
  journalWall : ℚ
  journalWall_eq : (circumstances 0).wallAtJournal = some journalWall
  journalWorks : (circumstances 0).journalFails = false
  journalFresh : (args.contractHash, tokens.requestId) ∉ s.journal.keys
  journalRoom : s.journal.size < maxPreparationTickets
  ticketFresh : (args.contractHash, tokens.requestId) ∉ s.memory.tickets.keys
  ticketRoom : s.memory.tickets.size < maxPreparationTickets
  sessionRoom : s.memory.prepared.size < maxPreparedSessions
  sessionId : String
  drawn : drawSessionId (s.memory.prune start) (circumstances 0).tokens = some sessionId
  sessionId_ok : isSessionId sessionId = true

/-! ## The ticket -/

/-- What the plan of a mapping counts. -/
structure PlanCounts (plan : AdmissionPlan) : Prop where
  schema : plan.schema = ManifestAdmission.schema
  digest : isHexOfLength 64 plan.manifestDigest = true
  entries_le : plan.entryCount ≤ 128
  files : plan.inlineFileCount = plan.entryCount
  dirs : plan.localDirCount = 0
  bytes_le : plan.inlineFileBytes ≤ 4 * 1024 * 1024
  environment : plan.environmentValueBytes = 0
  entries : plan.entryCount = plan.entries.length

variable {plan : AdmissionPlan}

theorem schema_of_build {manifest : ManifestAdmission.Manifest}
    (h : ManifestAdmission.buildStrixManifestAdmissionPlan sha manifest = .ok plan) : plan.schema = ManifestAdmission.schema := by
  unfold ManifestAdmission.buildStrixManifestAdmissionPlan at h
  split at h
  · cases h
  split at h
  · cases h
  split at h
  · cases h
  split at h
  · cases h
  split at h
  · cases h
  split at h
  · cases h
  split at h
  · cases h
  cases h
  rfl

variable {files : Option Files}

variable {text : String}

theorem planCounts
    (h : canonicalPlan sha files = .ok (text, plan)) : PlanCounts plan := by
  obtain ⟨mapping, rfl, -, hbuild, -, hdigest, -⟩ := canonicalPlan_eq_ok h
  obtain ⟨-, -, hentries, henvironment, -, -, hcounts⟩ := ManifestAdmission.build_eq_ok hbuild
  obtain ⟨-, -, -, -, -, hplanned⟩ := ManifestAdmission.planEntries_eq_ok hentries
  have hfiles : ∀ e ∈ plan.entries, e.kind = "file" := by
    intro e he
    obtain ⟨data, heq⟩ := kind_of_canonicalPlan h he
    rw [heq]
    rfl
  have hall : plan.entries.countP (fun e => e.kind = "file") = plan.entries.length :=
    List.countP_eq_length.mpr fun e he => decide_eq_true (hfiles e he)
  have hnone : plan.entries.countP (fun e => e.kind = "local_dir") = 0 := by
    refine List.countP_eq_zero.mpr fun e he => ?_
    rw [hfiles e he]
    decide
  have hempty : plan.environment = [] := by
    have hitems : (Except.ok [] : Except String (List ManifestAdmission.EnvironmentPlan)) = .ok plan.environment := henvironment
    exact (Except.ok.inj hitems).symm
  obtain ⟨h₁, h₂, h₃, h₄, h₅⟩ : plan.entryCount = plan.entries.length ∧ plan.inlineFileCount = plan.entries.length ∧
      plan.localDirCount = 0 ∧ plan.inlineFileBytes = ManifestAdmission.fileBytes plan.entries ∧ plan.environmentValueBytes = 0 := by
    have hfields := hcounts
    rw [hall, hnone, hempty] at hfields
    simp only [AdmissionPlan.counts, SignedCounts.mk.injEq] at hfields
    exact ⟨hfields.1, hfields.2.1, hfields.2.2.1, hfields.2.2.2.1, hfields.2.2.2.2⟩
  refine ⟨schema_of_build hbuild, ?_, ?_, h₂.trans h₁.symm, h₃, ?_, h₅, h₁⟩
  · rw [hdigest]
    exact sha.hex_valid _
  · rw [h₁]
    exact hplanned.length_le
  · rw [h₄]
    exact hplanned.bytes_le

theorem isId_requestId (tokens : Tokens) : ManifestTicket.isId tokens.requestId = true :=
  isId_append (by decide) (by decide) tokens.request.valid

/-- A descriptor whose fields are as they should be. -/
theorem descriptorError_of_fields {d : ManifestTicket.Descriptor} (hschema : d.schema = ManifestAdmission.schema)
    (hcontract : isHexOfLength 64 d.contractHash = true) (hrequest : ManifestTicket.isId d.requestId = true)
    (himage : isImage d.image = true) (hports : portsError d.exposedPorts = none)
    (hdigest : isHexOfLength 64 d.manifestDigest = true)
    (hbounds : ∀ b ∈ d.bounds, 0 ≤ b.2.1 ∧ b.2.1 ≤ b.2.2) (hsum : d.inlineFileCount + d.localDirCount = d.entryCount)
    (hflags : (d.hostPathsIncluded || d.rawFileContentIncluded || d.filesystemIoPerformed || d.manifestMaterialized ||
      d.uploadEnabled || d.activeExecutionEnabled) = false) : ManifestTicket.descriptorError d = none := by
  have hfind : d.bounds.find? (fun b => !(decide (0 ≤ b.2.1) && decide (b.2.1 ≤ b.2.2))) = none := by
    refine List.find?_eq_none.mpr fun b hb => ?_
    obtain ⟨hlow, hhigh⟩ := hbounds b hb
    simp [hlow, hhigh]
  rw [ManifestTicket.descriptorError, if_neg (not_not.mpr hschema), if_neg (by simp [hcontract]), if_neg (by simp [hrequest]),
    if_neg (by simp [himage]), hports]
  dsimp only
  rw [if_neg (by simp [hdigest]), hfind]
  dsimp only
  rw [if_neg (not_not.mpr hsum), hflags]
  rfl

theorem descriptorError_eq_none (ready : Ready cfg args tokens circumstances s) (h : PlanCounts plan) :
    ManifestTicket.descriptorError (descriptor args tokens.requestId plan) = none := by
  have hentries := h.entries_le
  have hfiles := h.files
  have hdirs := h.dirs
  have hbytes := h.bytes_le
  have henvironment := h.environment
  refine descriptorError_of_fields h.schema ready.contract (isId_requestId tokens) ready.image_ok ready.ports h.digest ?_ ?_ rfl
  · simp only [ManifestTicket.Descriptor.bounds, descriptor, List.mem_cons, List.not_mem_nil, or_false]
    rintro b (rfl | rfl | rfl | rfl | rfl)
    all_goals
      dsimp only
      omega
  · simp only [descriptor]
    omega

/-- A ticket that is in time. -/
theorem timesError_eq_none {issued : Int} {t : ℚ} (hissued : 1 ≤ issued) (hexpires : issued + ttlSeconds ≤ maxClock)
    (hlow : (issued : ℚ) ≤ t + clockSkewSeconds) (hhigh : t < issued + ttlSeconds) :
    ManifestTicket.timesError issued (issued + ttlSeconds) t = none := by
  have hpos : ttlSeconds = 120 := rfl
  have hhigh' : ¬ ((issued + ttlSeconds : Int) : ℚ) ≤ t := by
    push_cast
    exact not_le.mpr hhigh
  rw [ManifestTicket.timesError, if_neg, if_neg (not_lt.mpr hlow), if_neg hhigh']
  omega

/-- The ticket that is signed. -/
def readyTicket (crypto : Crypto) (ready : Ready cfg args tokens circumstances s) (plan : AdmissionPlan) : Ticket where
  schema := ManifestTicket.ticketSchema
  descriptor := descriptor args tokens.requestId plan
  issuedAt := ⌊ready.now⌋
  expiresAt := ⌊ready.now⌋ + ttlSeconds
  signatureAlg := "hmac-sha256"
  signature := ((ManifestTicket.signature? crypto.hmac ready.secret (descriptor args tokens.requestId plan) ⌊ready.now⌋
    (⌊ready.now⌋ + ttlSeconds)).getD "")

theorem signature_eq_some (ready : Ready cfg args tokens circumstances s) (plan : AdmissionPlan) (a b : Int) :
    ∃ text, ManifestTicket.signature? crypto.hmac ready.secret (descriptor args tokens.requestId plan) a b =
      some (crypto.hmac.hex (utf8 ready.secret.text) (ManifestTicket.signatureDomain ++ utf8 text)) := by
  unfold ManifestTicket.signature? ManifestTicket.canonicalText?
  rw [show (descriptor args tokens.requestId plan).image = .text ready.image from ready.image_eq]
  exact ⟨_, rfl⟩

theorem floor_bounds (ready : Ready cfg args tokens circumstances s) :
    1 ≤ ⌊ready.now⌋ ∧ ⌊ready.now⌋ + ttlSeconds ≤ maxClock ∧ (⌊ready.now⌋ : ℚ) ≤ ready.now := by
  have hfloor := Int.floor_le ready.now
  refine ⟨Int.le_floor.mpr (by exact_mod_cast ready.clock_le.1), ?_, hfloor⟩
  have hle : ((⌊ready.now⌋ + ttlSeconds : Int) : ℚ) ≤ maxClock := by
    push_cast
    exact (add_le_add_left hfloor _).trans ready.clock_le.2
  exact_mod_cast hle

theorem signTicket_ready (ready : Ready cfg args tokens circumstances s) (h : PlanCounts plan) :
    signTicket crypto ready.secret args tokens.requestId plan = .ok (readyTicket crypto ready plan) := by
  obtain ⟨hone, hmax, hfloor⟩ := floor_bounds ready
  obtain ⟨text, hsignature⟩ := signature_eq_some ready plan ⌊ready.now⌋ (⌊ready.now⌋ + ttlSeconds)
  have hclock : ManifestTicket.ticketClock? args.clock = some ready.now := by
    rw [ready.clock, ManifestTicket.ticketClock?, Option.filter_eq_some_iff]
    refine ⟨rfl, ?_⟩
    have hmax' : ready.now ≤ maxClock := by
      have hle := ready.clock_le.2
      have hpos : (0 : ℚ) ≤ ttlSeconds := by norm_num [ttlSeconds]
      linarith
    simp [ready.clock_le.1, hmax']
  have htimes : ManifestTicket.timesError ⌊ready.now⌋ (⌊ready.now⌋ + ttlSeconds) ⌊ready.now⌋ = none := by
    refine timesError_eq_none hone hmax ?_ ?_
    · norm_num [clockSkewSeconds]
    · norm_num [ttlSeconds]
  rw [signTicket, ManifestTicket.buildStrixRunnerManifestTicket, hclock]
  dsimp only
  rw [descriptorError_eq_none ready h]
  dsimp only
  rw [htimes]
  dsimp only
  rw [hsignature]
  dsimp only
  rw [readyTicket, hsignature]
  rfl

/-- A ticket whose fields are as they should be. -/
theorem ticketError_of_fields {hmac : HmacSha256} {secret : ManifestTicket.Secret} {t : Ticket} {p : ManifestTicket.Presented}
    {now : Option ℚ} {wall : ℚ} (hschema : t.schema = ManifestTicket.ticketSchema)
    (hadmission : t.descriptor.schema = ManifestAdmission.schema) (halg : t.signatureAlg = "hmac-sha256")
    (hhex : isHexOfLength 64 t.signature = true) (hdescriptor : ManifestTicket.descriptorError t.descriptor = none)
    (hissued : ManifestTicket.timesError t.issuedAt t.expiresAt t.issuedAt = none)
    (hsignature : ManifestTicket.signature? hmac secret t.descriptor t.issuedAt t.expiresAt = some t.signature)
    (hclock : ManifestTicket.ticketClock? now = some wall)
    (hwall : ManifestTicket.timesError t.issuedAt t.expiresAt wall = none) (hports : portsError p.exposedPorts = none)
    (himage : isImage p.image = true) (hmatch : t.descriptor.requestId = p.requestId ∧ t.descriptor.image = p.image ∧
      t.descriptor.exposedPorts = p.exposedPorts ∧ t.descriptor.manifestDigest = p.manifestDigest) :
    ManifestTicket.ticketError hmac secret t p now = none := by
  rw [ManifestTicket.ticketError, if_neg (not_not.mpr hschema), if_neg (not_not.mpr hadmission), if_neg (not_not.mpr halg),
    if_neg (by simp [hhex]), hdescriptor]
  dsimp only
  rw [hissued]
  dsimp only
  rw [hsignature]
  dsimp only
  rw [if_neg (not_not.mpr rfl), hclock]
  dsimp only
  rw [hwall]
  dsimp only
  rw [hports]
  dsimp only
  rw [if_neg (by simp [himage]), if_neg]
  simp [hmatch]

/-- The runner takes the ticket. -/
theorem ticketError_ready (ready : Ready cfg args tokens circumstances s) (h : PlanCounts plan) :
    ManifestTicket.ticketError crypto.hmac ready.secret (readyTicket crypto ready plan)
      ⟨tokens.requestId, args.image, args.exposedPorts, plan.manifestDigest⟩ (some ready.wall) = none := by
  obtain ⟨hone, hmax, hfloor⟩ := floor_bounds ready
  obtain ⟨text, hsignature⟩ := signature_eq_some ready plan ⌊ready.now⌋ (⌊ready.now⌋ + ttlSeconds)
  have hsigned : (readyTicket crypto ready plan).signature =
      crypto.hmac.hex (utf8 ready.secret.text) (ManifestTicket.signatureDomain ++ utf8 text) := by
    rw [readyTicket, hsignature]
    rfl
  have hissued : ManifestTicket.timesError (readyTicket crypto ready plan).issuedAt (readyTicket crypto ready plan).expiresAt
      (readyTicket crypto ready plan).issuedAt = none := by
    refine timesError_eq_none hone hmax ?_ ?_
    · norm_num [clockSkewSeconds]
    · norm_num [ttlSeconds]
  have hwall : ManifestTicket.timesError (readyTicket crypto ready plan).issuedAt (readyTicket crypto ready plan).expiresAt
      ready.wall = none := timesError_eq_none hone hmax (hfloor.trans ready.wall_ok.2.1) ready.wall_ok.2.2
  have hclock : ManifestTicket.ticketClock? (some ready.wall) = some ready.wall := by
    rw [ManifestTicket.ticketClock?, Option.filter_eq_some_iff]
    have hmax' : ((⌊ready.now⌋ + ttlSeconds : Int) : ℚ) ≤ maxClock := by exact_mod_cast hmax
    push_cast at hmax'
    have hle : ready.wall ≤ maxClock := ready.wall_ok.2.2.le.trans hmax'
    simp [ready.wall_ok.1, hle]
  refine ticketError_of_fields rfl h.schema rfl ?_ (descriptorError_eq_none ready h) hissued ?_ hclock hwall ready.ports
    ready.image_ok ⟨rfl, rfl, rfl, rfl⟩
  · rw [hsigned]
    exact crypto.hmac.hex_valid _ _
  · rw [hsigned]
    exact hsignature

/-! ## The session -/

/-- The session as it is prepared. -/
def readySession (crypto : Crypto) (ready : Ready cfg args tokens circumstances s) (plan : AdmissionPlan) : PreparedSession :=
  newSession (readyTicket crypto ready plan) ready.sessionId (ready.start + preparedSessionTtl)

theorem isId_of_isSessionId {id : String} (h : isSessionId id = true) : ManifestTicket.isId id = true := by
  rw [isSessionId, Bool.and_eq_true, decide_eq_true_eq] at h
  obtain ⟨htake, hhex⟩ := h
  have hid : id = "prepared-" ++ String.ofList (id.toList.drop 9) := by
    have hsplit := List.take_append_drop 9 id.toList
    rw [htake] at hsplit
    refine String.toList_inj.mp (hsplit.symm.trans ?_)
    rw [String.toList_append, String.toList_ofList, String.toList_ofList]
  rw [hid]
  exact isId_append (by decide) (by decide) hhex

/-- A ticket that the journal has not seen is consumed. -/
theorem consume_fresh {j : Journal} {k : String × String} (hnew : k ∉ j.keys) (hroom : j.size < maxPreparationTickets)
    (e now : Int) : ∃ j', j.consume k e now = (.consumed, j') := by
  have hnew' : k ∉ (j.purge now).keys := by
    intro hmem
    obtain ⟨v, hv⟩ := Dict.mem_keys.mp hmem
    exact hnew (Dict.mem_keys.mpr ⟨v, (List.mem_filter.mp hv).1⟩)
  have hroom' : ¬ maxPreparationTickets ≤ (j.purge now).size := not_le.mpr ((List.length_filter_le _ _).trans_lt hroom)
  refine ⟨(j.purge now).append k e hnew', ?_⟩
  rw [Journal.consume, dif_neg hnew', if_neg hroom']

/-- The session is prepared. -/
theorem handle_prepare_ready (ready : Ready cfg args tokens circumstances s) (h : PlanCounts plan) :
    ∃ s', handle crypto cfg s
        (.prepare ⟨tokens.requestId, args.image, args.exposedPorts, plan.manifestDigest, readyTicket crypto ready plan⟩)
        (circumstances 0) =
      (.prepared ready.sessionId args.contractHash plan.manifestDigest preparedSessionTtl, s') ∧
      s'.memory.prepared.get? ready.sessionId = some (readySession crypto ready plan) := by
  have hvalid : (Operation.prepare ⟨tokens.requestId, args.image, args.exposedPorts, plan.manifestDigest,
      readyTicket crypto ready plan⟩).isValid = true := by
    simp [Operation.isValid, isId_requestId, ready.image_ok, ready.ports, h.digest]
  have hticket : ticketId (readyTicket crypto ready plan) = (args.contractHash, tokens.requestId) := rfl
  have hmemory : (args.contractHash, tokens.requestId) ∉ (s.memory.prune ready.start).tickets.keys := by
    intro hmem
    obtain ⟨v, hv⟩ := Dict.mem_keys.mp hmem
    exact ready.ticketFresh (Dict.mem_keys.mpr ⟨v, (List.dropWhile_sublist _).subset hv⟩)
  have hsessions : ¬ maxPreparedSessions ≤ (s.memory.prune ready.start).prepared.size :=
    not_le.mpr ((List.length_filter_le _ _).trans_lt ready.sessionRoom)
  have htickets : ¬ maxPreparationTickets ≤ (s.memory.prune ready.start).tickets.size :=
    not_le.mpr ((List.dropWhile_sublist _).length_le.trans_lt ready.ticketRoom)
  obtain ⟨j, hconsume⟩ := consume_fresh ready.journalFresh ready.journalRoom (readyTicket crypto ready plan).expiresAt
    (truncate ready.journalWall)
  refine ⟨⟨{ s.memory.prune ready.start with
      prepared := (s.memory.prune ready.start).prepared.set ready.sessionId (readySession crypto ready plan)
      tickets := (s.memory.prune ready.start).tickets.set (args.contractHash, tokens.requestId)
        (ready.start + preparedSessionTtl) }, j⟩, ?_, Dict.get?_set_self⟩
  rw [handle, if_neg (by rw [hvalid]; exact Bool.noConfusion)]
  dsimp only
  rw [RunnerRpc.prepareSession, if_neg (by rw [ready.inert]; exact Bool.noConfusion), ready.shared]
  dsimp only
  rw [if_neg (by rw [ready.store]; exact Bool.noConfusion), ready.wall_eq, ticketError_ready ready h]
  dsimp only
  rw [ready.start_eq]
  dsimp only
  rw [admitTicket, hticket]
  rw [if_neg hmemory, if_neg hsessions, if_neg htickets, ready.journalWall_eq]
  dsimp only
  rw [if_neg (by rw [ready.journalWorks]; exact Bool.noConfusion), hconsume]
  dsimp only
  rw [ready.drawn]
  rfl

/-! ## The run of the broker -/

variable {n : Nat} {s' : State}

/-- A request that the runner answers. -/
theorem run_postRunner {s : State} {op : Operation} {r : Reply}
    (h : handle crypto cfg s op (circumstances n) = (r, s')) (hreply : posted r = .reply r) :
    run (serve crypto cfg circumstances) (postRunner op).prog (n, s) = (.ok r, (n + 1, s')) := by
  have hserve : serve crypto cfg circumstances op (n, s) = (.reply r, (n + 1, s')) := by
    rw [serve, h, hreply]
  exact run_ask hserve

/-- What the transfer knows of the session while it goes on. -/
structure Going (ready : Ready cfg args tokens circumstances s) (plan : AdmissionPlan) (m : Memory) (item : PreparedSession) :
    Prop where
  prepared : m.prepared.get? ready.sessionId = some item
  id : item.sessionId = ready.sessionId
  contract : item.contractHash = args.contractHash
  manifest : item.manifestDigest = plan.manifestDigest
  expires : item.expiresAt = ready.start + preparedSessionTtl
  files : item.counts.inlineFileCount = plan.inlineFileCount

/-- The session as the requests name it. -/
def Ready.base (ready : Ready cfg args tokens circumstances s) (plan : AdmissionPlan) : SessionRef :=
  ⟨ready.sessionId, args.contractHash, plan.manifestDigest⟩

variable {item : PreparedSession}

theorem Going.held {ready : Ready cfg args tokens circumstances s} {m : Memory}
    (h : Going ready plan m item) (n : Nat) :
    ∃ now, Serves cfg (circumstances n) now ∧ Held m (ready.base plan) now item := by
  obtain ⟨now, hnow, hlive⟩ := ready.monotonic n
  exact ⟨now, ⟨ready.inert, hnow⟩, h.prepared, h.id, h.contract, h.manifest, h.expires ▸ hlive⟩

/-- Two states of one session. -/
structure SameSession (item item' : PreparedSession) : Prop where
  id : item'.sessionId = item.sessionId
  contract : item'.contractHash = item.contractHash
  manifest : item'.manifestDigest = item.manifestDigest
  expires : item'.expiresAt = item.expiresAt
  counts : item'.counts = item.counts

theorem sameSession_setProof (item : PreparedSession) (path : String) (proof : InertFileProof) :
    SameSession item (item.setProof path proof) := ⟨rfl, rfl, rfl, rfl, rfl⟩

theorem sameSession_verifyPlan (item : PreparedSession) (text : String) : SameSession item (item.verifyPlan text) :=
  ⟨rfl, rfl, rfl, rfl, rfl⟩

/-- The session goes on in its next state. -/
theorem Going.setSession {ready : Ready cfg args tokens circumstances s} {m m' : Memory}
    {item' : PreparedSession} (h : Going ready plan m item) (hsame : SameSession item item') :
    Going ready plan (m'.setSession item') item' := by
  refine ⟨?_, hsame.id.trans h.id, hsame.contract.trans h.contract, hsame.manifest.trans h.manifest,
    hsame.expires.trans h.expires, hsame.counts ▸ h.files⟩
  exact get?_setSession (show item'.sessionId = (ready.base plan).sessionId from hsame.id.trans h.id)

theorem isValid_base (ready : Ready cfg args tokens circumstances s) (h : PlanCounts plan) :
    (ready.base plan).isValid = true := by
  simp [SessionRef.isValid, Ready.base, isId_of_isSessionId ready.sessionId_ok, ready.contract, h.digest]

/-- The session is prepared, and the broker reads its id. -/
theorem run_prepareSession (ready : Ready cfg args tokens circumstances s) (h : PlanCounts plan) :
    ∃ s', run (serve crypto cfg circumstances) (prepareSession args tokens plan (readyTicket crypto ready plan)).prog (0, s) =
      (.ok ready.sessionId, (1, s')) ∧ s'.memory.prepared.get? ready.sessionId = some (readySession crypto ready plan) := by
  obtain ⟨s', hhandle, hitem⟩ := handle_prepare_ready ready h
  have hpost := run_postRunner (n := 0) hhandle rfl
  have hrequest : run (serve crypto cfg circumstances) (requestSession args tokens plan (readyTicket crypto ready plan)).prog
      (0, s) = (.ok (.prepared ready.sessionId args.contractHash plan.manifestDigest preparedSessionTtl), (1, s')) := by
    rw [requestSession, run_bind_ok (run_attempt hpost)]
    rfl
  refine ⟨s', ?_, hitem⟩
  rw [prepareSession, run_bind_ok hrequest]
  dsimp only
  rw [run_bind_ok (run_check ⟨ready.sessionId_ok, rfl, rfl, by decide, by decide⟩)]
  rfl

/-- The proof that an entry of the plan starts with. -/
def startEntry (e : EntryPlan) : String × InertFileProof := (e.path, .start (e.contentSha256.getD "") (e.contentBytes.getD 0))

/-- The plan is sent: the session has a proof for each of its files. -/
theorem run_sendPlan (ready : Ready cfg args tokens circumstances s)
    (hplan : canonicalPlan crypto.sha args.files = .ok (text, plan))
    (hitem : s'.memory.prepared.get? ready.sessionId = some (readySession crypto ready plan)) :
    ∃ s'' item, run (serve crypto cfg circumstances) (sendPlan (ready.base plan) tokens text plan).prog (n, s') =
        (.ok (), (n + 1, s'')) ∧ Going ready plan s''.memory item ∧ item.planVerified = true ∧
      item.fileProofs.entries = plan.entries.map startEntry := by
  have hcounts := planCounts hplan
  obtain ⟨mapping, hmapping, -, hbuild, htext, hdigest, hsize⟩ := canonicalPlan_eq_ok hplan
  subst htext
  have hgoing : Going ready plan s'.memory (readySession crypto ready plan) := by
    refine ⟨hitem, rfl, rfl, rfl, rfl, ?_⟩
    exact Int.toNat_natCast _
  obtain ⟨now, hserves, hheld⟩ := hgoing.held n
  have hsigned : (readySession crypto ready plan).counts = plan.counts := by
    simp [readySession, newSession, Ticket.counts, readyTicket, descriptor, AdmissionPlan.counts]
  have hverify : verifyCanonicalManifestPlan crypto.sha plan.canonicalJson (readySession crypto ready plan).manifestDigest
      (readySession crypto ready plan).counts = .ok plan.canonicalJson.utf8ByteSize := by
    rw [hsigned]
    exact ManifestAdmission.runnerAccepts_of_int hbuild rfl
  have hlength : plan.canonicalJson.length ≤ 256 * 1024 := by
    rw [length_utf8] at hsize
    exact (Json.length_le_utf8ByteSize _).trans hsize
  have hvalid : (Operation.planReceipt ("plan-" ++ tokens.plan.text) (ready.base plan) plan.canonicalJson).isValid = true := by
    rw [Operation.isValid, isId_append (by decide) (by decide) tokens.plan.valid, isValid_base ready hcounts,
      decide_eq_true hlength]
    rfl
  have hhandle := handle_planReceipt hserves hvalid hheld rfl hverify
  refine ⟨⟨(s'.memory.prune now).setSession ((readySession crypto ready plan).verifyPlan plan.canonicalJson), s'.journal⟩, _,
    ?_, hgoing.setSession (sameSession_verifyPlan _ _), rfl, ?_⟩
  · rw [sendPlan, run_bind_ok (run_attempt (run_postRunner hhandle rfl))]
    exact run_check ⟨rfl, rfl, (length_utf8 _).symm⟩
  · obtain ⟨-, -, hentries, -⟩ := ManifestAdmission.build_eq_ok hbuild
    obtain ⟨-, -, -, -, -, hplanned⟩ := ManifestAdmission.planEntries_eq_ok hentries
    have hall : plan.entries.filterMap EntryPlan.file? =
        plan.entries.map fun e => (e.path, e.contentSha256.getD "", e.contentBytes.getD 0) := by
      rw [← List.filterMap_eq_map]
      refine List.filterMap_congr fun e he => ?_
      obtain ⟨data, heq⟩ := kind_of_canonicalPlan hplan he
      rw [heq]
      rfl
    show (RunnerRpc.fileProofs plan.canonicalJson).entries = _
    rw [ManifestAdmission.fileProofs_canonicalJson hbuild, hall, List.map_map, Dict.entries_ofList]
    · rfl
    · rw [List.map_map]
      exact hplanned.nodup

/-- The session while a file is being sent: the files before it are verified, and of this one a part is sent. -/
structure Sending (sha : Sha256) (item : PreparedSession) (before : List (String × InertFileProof)) (path : String)
    (data sent : List UInt8) (rest : List (String × InertFileProof)) : Prop where
  planned : item.planVerified = true
  entries : item.fileProofs.entries =
    before ++ (path, ⟨sha.hex data, data.length, sent.length, sent, false, false⟩) :: rest
  done : before.countP (fun e => e.2.verified) = before.length
  open_ : rest.countP (fun e => e.2.verified) = 0

theorem chunkAt_fits (data : List UInt8) {offset : Nat} (h : offset ≤ data.length) :
    offset + (chunkAt data offset).length ≤ data.length := by
  rw [length_chunkAt]
  omega

theorem decodeInertChunk_encode {content : List UInt8} (h : content.length ≤ maxFileChunkBytes) :
    decodeInertChunk (String.ofList (Base64.encode content)) = some content ∧
      (String.ofList (Base64.encode content)).length ≤ maxChunkBase64 := by
  have hlength : (String.ofList (Base64.encode content)).length ≤ maxChunkBase64 := by
    rw [String.length_ofList, Base64.length_encode, maxChunkBase64]
    gcongr
  refine ⟨?_, hlength⟩
  rw [decodeInertChunk, if_neg (not_lt.mpr hlength), String.toList_ofList, Base64.decode_encode]
  dsimp only
  rw [if_neg]
  rw [not_or]
  exact ⟨not_lt.mpr h, not_not.mpr rfl⟩

variable {number : Nat} {path : String}

variable {before : List (String × InertFileProof)}

/-- A chunk is sent. -/
theorem run_sendChunk (ready : Ready cfg args tokens circumstances s) (hcounts : PlanCounts plan)
    {rest : List (String × InertFileProof)}
    {data sent : List UInt8} {offset : Nat} {offsets : List Nat} (hgoing : Going ready plan s'.memory item)
    (hsending : Sending crypto.sha item before path data sent rest) (hpath : PlanPath path)
    (hdata : data.length ≤ ManifestAdmission.maxInlineFileBytes) (hnumber : number = before.length + 1)
    (htotal : plan.inlineFileCount = before.length + 1 + rest.length) (hcuts : Cuts data sent (offset :: offsets)) :
    ∃ s'' item' proof, run (serve crypto cfg circumstances) (sendChunk crypto.sha (ready.base plan) tokens plan number
        (filePlan crypto.sha path data) data (sent ++ chunkAt data offset) offset).prog (n, s') = (.ok (), (n + 1, s'')) ∧
      Going ready plan s''.memory item' ∧ item'.planVerified = true ∧
      item'.fileProofs.entries = before ++ (path, proof) :: rest ∧
      proof = ⟨crypto.sha.hex data, data.length, (sent ++ chunkAt data offset).length, sent ++ chunkAt data offset,
        isFinal data offset, false⟩ := by
  obtain ⟨hsent, hle, hfinal, hnonempty, hrest⟩ := hcuts
  have hoffset : sent.length = offset := by
    rw [hsent, List.length_take]
    omega
  have hfits := chunkAt_fits data hle
  obtain ⟨hdecode, hbase64⟩ := decodeInertChunk_encode (show (chunkAt data offset).length ≤ _ by rw [length_chunkAt]; omega)
  obtain ⟨now, hserves, hheld⟩ := hgoing.held n
  have hproof : item.fileProofs.get? path = some ⟨crypto.sha.hex data, data.length, sent.length, sent, false, false⟩ := by
    refine Dict.mem_entries.mp ?_
    rw [hsending.entries]
    exact List.mem_append_right _ List.mem_cons_self
  have htakes : Takes ⟨crypto.sha.hex data, data.length, sent.length, sent, false, false⟩
      (chunkRequest (ready.base plan) (filePlan crypto.sha path data) data offset) (chunkAt data offset) := by
    refine ⟨rfl, rfl, rfl, ?_, hdecode, ?_, ?_, ?_⟩
    · exact congrArg Int.ofNat hoffset.symm
    · show sent.length + _ ≤ data.length
      omega
    · rcases hnonempty with hne | hempty
      · exact .inl hne
      · right
        subst hempty
        show isFinal [] offset = true
        simp [isFinal, chunkAt] at hle ⊢
        exact hle
    · show isFinal data offset = decide (sent.length + _ = data.length)
      rw [hoffset]
      rfl
  have hhex : (chunkRequest (ready.base plan) (filePlan crypto.sha path data) data offset).final = true →
      crypto.sha.hex (sent ++ chunkAt data offset) = crypto.sha.hex data := by
    intro hf
    have hnil := hfinal.mp hf
    subst hnil
    rw [show sent ++ chunkAt data offset = data from hrest]
  have hvalid : (Operation.fileChunk ("chunk-" ++ (tokens.chunk path offset).text)
      (chunkRequest (ready.base plan) (filePlan crypto.sha path data) data offset)).isValid = true := by
    have hmega : (offset : Int) ≤ 1024 * 1024 := by
      have hlimit : ManifestAdmission.maxInlineFileBytes = 1024 * 1024 := rfl
      omega
    have hlow : (0 : Int) ≤ offset := Int.natCast_nonneg offset
    rw [Operation.isValid, isId_append (by decide) (by decide) (tokens.chunk path offset).valid]
    simp only [chunkRequest, isValid_base ready hcounts, filePlan, Option.getD_some, crypto.sha.hex_valid,
      ManifestAdmission.PlanPath.isPlanPath hpath, hmega, hlow, hbase64, decide_true, Bool.and_self]
  have hhandle := handle_fileChunk (s := s') hserves hvalid hheld hsending.planned hproof htakes hhex
  generalize hfed : ({ InertFileProof.feed ⟨crypto.sha.hex data, data.length, sent.length, sent, false, false⟩
    (chunkAt data offset) with verified := (chunkRequest (ready.base plan) (filePlan crypto.sha path data) data offset).final } :
      InertFileProof) = fed at hhandle
  have hfed' : fed = ⟨crypto.sha.hex data, data.length, (sent ++ chunkAt data offset).length, sent ++ chunkAt data offset,
      isFinal data offset, false⟩ := by
    rw [← hfed, List.length_append]
    rfl
  have hentries : (item.setProof path fed).fileProofs.entries = before ++ (path, fed) :: rest :=
    Dict.entries_set_of_append hsending.entries
  have hverified : verifiedFiles (item.setProof path fed) = if isFinal data offset = true then number else number - 1 := by
    have hfinal' : fed.verified = isFinal data offset := by rw [hfed']
    rw [verifiedFiles, Dict.values, hentries, List.countP_map, List.countP_append, List.countP_cons]
    rw [show List.countP ((fun x : InertFileProof => x.verified) ∘ fun e : String × InertFileProof => e.2) before = before.length
      from hsending.done, show List.countP ((fun x : InertFileProof => x.verified) ∘ fun e : String × InertFileProof => e.2) rest = 0
      from hsending.open_, Function.comp_apply, hfinal', hnumber]
    split <;> omega
  have hall : decide (verifiedFiles (item.setProof path fed) = item.counts.inlineFileCount) =
      (isFinal data offset && decide (number = plan.inlineFileCount)) := by
    rw [hverified, hgoing.files]
    cases isFinal data offset with
    | true => rfl
    | false =>
      rw [Bool.false_and, decide_eq_false_iff_not, if_neg Bool.false_ne_true]
      omega
  have hbytes : fed.receivedBytes = offset + (chunkAt data offset).length := by
    rw [hfed', ← hoffset, List.length_append]
  refine ⟨⟨(s'.memory.prune now).setSession (item.setProof path fed), s'.journal⟩, _, fed, ?_,
    hgoing.setSession (sameSession_setProof _ _ _), hsending.planned, hentries, hfed'⟩
  have hprogress : run (serve crypto cfg circumstances) (chunkProgress (ready.base plan) tokens plan
      (filePlan crypto.sha path data) data offset).prog (n, s') =
      (.ok (expectedProgress crypto.sha (ready.base plan) plan number (filePlan crypto.sha path data) data
        (sent ++ chunkAt data offset) offset),
        (n + 1, ⟨(s'.memory.prune now).setSession (item.setProof path fed), s'.journal⟩)) := by
    have hsafe : (chunkReceipt crypto.sha (item.setProof path fed) path fed (isFinal data offset)).fileVerified =
        isFinal data offset := rfl
    rw [chunkProgress, show (filePlan crypto.sha path data).path = path from rfl,
      run_bind_ok (run_attempt (run_postRunner hhandle rfl))]
    dsimp only
    refine (run_bind_ok (run_check hsafe)).trans ?_
    have hexpected : progressOfReceipt (chunkReceipt crypto.sha (item.setProof path fed) path fed (isFinal data offset)) =
        expectedProgress crypto.sha (ready.base plan) plan number (filePlan crypto.sha path data) data
          (sent ++ chunkAt data offset) offset := by
      have hhash : fed.hashState = sent ++ chunkAt data offset := by rw [hfed']
      have hflag : fed.verified = isFinal data offset := by rw [hfed']
      rw [progressOfReceipt, expectedProgress, FileProgress.mk.injEq]
      exact ⟨hgoing.id, rfl, congrArg some hbytes, congrArg (fun b => some (crypto.sha.hex b)) hhash, congrArg some hflag,
        hverified, hall⟩
    rw [← hexpected]
    rfl
  rw [sendChunk, run_bind_ok hprogress]
  exact run_check rfl

/-- A file is sent. -/
theorem run_sendChunks (ready : Ready cfg args tokens circumstances s) (hcounts : PlanCounts plan)
    {rest : List (String × InertFileProof)}
    {data sent : List UInt8} {offsets : List Nat} (hgoing : Going ready plan s'.memory item)
    (hsending : Sending crypto.sha item before path data sent rest) (hpath : PlanPath path)
    (hdata : data.length ≤ ManifestAdmission.maxInlineFileBytes) (hnumber : number = before.length + 1)
    (htotal : plan.inlineFileCount = before.length + 1 + rest.length) (hcuts : Cuts data sent offsets) (hne : offsets ≠ []) :
    ∃ n' s'' item' proof, run (serve crypto cfg circumstances) (sendChunks crypto.sha (ready.base plan) tokens plan number
        (filePlan crypto.sha path data) data sent offsets).prog (n, s') = (.ok (), (n', s'')) ∧
      Going ready plan s''.memory item' ∧ item'.planVerified = true ∧
      item'.fileProofs.entries = before ++ (path, proof) :: rest ∧ proof.verified = true := by
  induction offsets generalizing n s' item sent with
  | nil => exact absurd rfl hne
  | cons offset offsets ih =>
    obtain ⟨s₁, item₁, proof, hrun, hgoing₁, hplanned₁, hentries₁, hproof⟩ := run_sendChunk ready hcounts (n := n) hgoing hsending
      hpath hdata hnumber htotal hcuts
    obtain ⟨-, -, hfinal, -, hrest⟩ := hcuts
    by_cases hnil : offsets = []
    · subst hnil
      refine ⟨n + 1, s₁, item₁, proof, ?_, hgoing₁, hplanned₁, hentries₁, ?_⟩
      · rw [sendChunks, run_bind_ok hrun]
        rfl
      · rw [hproof]
        exact hfinal.mpr rfl
    · have hopen : isFinal data offset = false := by
        rw [← Bool.not_eq_true, hfinal]
        exact hnil
      rw [hopen] at hproof
      rw [hproof] at hentries₁
      obtain ⟨n', s'', item', proof', hrun', hrest'⟩ := ih (n := n + 1) hgoing₁
        ⟨hplanned₁, hentries₁, hsending.done, hsending.open_⟩ hrest hnil
      refine ⟨n', s'', item', proof', ?_, hrest'⟩
      rw [sendChunks, run_bind_ok hrun]
      exact hrun'

theorem countP_startEntry (entries : List EntryPlan) : (entries.map startEntry).countP (fun e => e.2.verified) = 0 := by
  refine List.countP_eq_zero.mpr fun e he => ?_
  obtain ⟨entry, -, rfl⟩ := List.mem_map.mp he
  exact Bool.false_ne_true

/-- The content that the transfer looks up for an entry is there, and is the planned one, or is not there. -/
def Lookup (sha : Sha256) (files : Option Files) (e : EntryPlan) : Prop :=
  (∃ data, fileContent files e.path = .ok data ∧ e = filePlan sha e.path data) ∨
    fileContent files e.path = .error (.keyError e.path)

/-- The files are sent, up to the first whose content is not found. -/
theorem run_sendFiles (ready : Ready cfg args tokens circumstances s) (hcounts : PlanCounts plan)
    {entries : List EntryPlan} (hgoing : Going ready plan s'.memory item) (hplanned : item.planVerified = true)
    (hentries : item.fileProofs.entries = before ++ entries.map startEntry)
    (hdone : before.countP (fun e => e.2.verified) = before.length) (hnumber : number = before.length + 1)
    (htotal : plan.inlineFileCount = before.length + entries.length)
    (hshape : ∀ e ∈ entries, ManifestAdmission.EntryShape crypto.sha e) (hlookup : ∀ e ∈ entries, Lookup crypto.sha files e) :
    ∃ n' s'' item' result, run (serve crypto cfg circumstances)
        (sendFiles crypto.sha (ready.base plan) tokens plan files number entries).prog (n, s') = (result, (n', s'')) ∧
      Going ready plan s''.memory item' ∧
      ((result = .ok () ∧ ∀ e ∈ entries, ∃ data, fileContent files e.path = .ok data) ∨
        ∃ e ∈ entries, fileContent files e.path = .error (.keyError e.path) ∧ result = .error (.keyError e.path)) := by
  induction entries generalizing n number s' item before with
  | nil => exact ⟨n, s', item, .ok (), rfl, hgoing, .inl ⟨rfl, by simp⟩⟩
  | cons entry entries ih =>
    rcases hlookup entry List.mem_cons_self with ⟨data, hcontent, heq⟩ | hmissing
    · obtain ⟨path, hpatheq⟩ : ∃ path, entry.path = path := ⟨_, rfl⟩
      rw [hpatheq] at hcontent heq
      subst heq
      obtain ⟨hpath, hdata⟩ : PlanPath path ∧ data.length ≤ ManifestAdmission.maxInlineFileBytes := by
        have hentry := hshape _ List.mem_cons_self
        generalize he : filePlan crypto.sha path data = e at hentry
        cases hentry with
        | @file p content hp hlen =>
          have hp' := congrArg EntryPlan.path he
          have hlen' := congrArg EntryPlan.contentBytes he
          cases hp'
          rw [show data.length = content.length from Option.some.inj hlen']
          exact ⟨hp, hlen⟩
        | localDir hp =>
          have hkind : "file" = "local_dir" := congrArg EntryPlan.kind he
          exact absurd hkind (by decide)
      have hsending : Sending crypto.sha item before path data [] (entries.map startEntry) :=
        ⟨hplanned, hentries, hdone, countP_startEntry entries⟩
      have htotal' : plan.inlineFileCount = before.length + 1 + (entries.map startEntry).length := by
        rw [htotal, List.length_cons, List.length_map]
        omega
      obtain ⟨n₁, s₁, item₁, proof, hrun, hgoing₁, hplanned₁, hentries₁, hverified⟩ := run_sendChunks ready hcounts (n := n) hgoing
        hsending hpath hdata hnumber htotal' (cuts_offsets data) (offsets_ne_nil data)
      have hbefore : item₁.fileProofs.entries = (before ++ [(path, proof)]) ++ entries.map startEntry := by
        rw [hentries₁, List.append_assoc]
        rfl
      obtain ⟨n', s'', item', result, hrun', hgoing', hresult⟩ := ih (n := n₁) hgoing₁ hplanned₁ hbefore
        (by rw [List.countP_append, hdone, List.length_append, List.countP_singleton]; simp [hverified])
        (show number + 1 = _ by rw [hnumber, List.length_append]; rfl)
        (by rw [htotal, List.length_append, List.length_cons, List.length_singleton]; omega)
        (fun e he => hshape e (List.mem_cons_of_mem _ he)) (fun e he => hlookup e (List.mem_cons_of_mem _ he))
      have hread : run (serve crypto cfg circumstances) (Call.ofExcept (fileContent files path) : Transfer (List UInt8)).prog
          (n, s') = (.ok data, (n, s')) := by
        rw [hcontent]
        rfl
      refine ⟨n', s'', item', result, ?_, hgoing', ?_⟩
      · rw [sendFiles, show (filePlan crypto.sha path data).path = path from rfl, run_bind_ok hread, run_bind_ok hrun]
        exact hrun'
      · rcases hresult with ⟨hok, hall⟩ | ⟨e, he, hmiss, herror⟩
        · refine .inl ⟨hok, fun e he => ?_⟩
          rcases List.mem_cons.mp he with rfl | he
          · exact ⟨data, hcontent⟩
          · exact hall e he
        · exact .inr ⟨e, List.mem_cons_of_mem _ he, hmiss, herror⟩
    · refine ⟨n, s', item, .error (.keyError entry.path), ?_, hgoing, .inr ⟨entry, List.mem_cons_self, hmissing, rfl⟩⟩
      have hread : run (serve crypto cfg circumstances)
          (Call.ofExcept (fileContent files entry.path) : Transfer (List UInt8)).prog (n, s') =
          (.error (.keyError entry.path), (n, s')) := by
        rw [hmissing]
        rfl
      rw [sendFiles, run_bind_error hread]

/-- The session is released. -/
theorem run_releaseSession (ready : Ready cfg args tokens circumstances s)
    (hgoing : Going ready plan s'.memory item) :
    ∃ s'', run (serve crypto cfg circumstances) (releaseSession (ready.base plan) tokens).prog (n, s') = (.ok (), (n + 1, s'')) := by
  obtain ⟨now, hserves, hheld⟩ := hgoing.held n
  have hvalid : (Operation.release ("release-" ++ tokens.release.text) (ready.base plan).sessionId
      (ready.base plan).contractHash).isValid = true := by
    rw [Operation.isValid, isId_append (by decide) (by decide) tokens.release.valid]
    simp [Ready.base, isId_of_isSessionId ready.sessionId_ok, ready.contract]
  have hreply : (handle crypto cfg s' _ _).1 = _ := handle_release hserves hvalid hheld
  obtain ⟨⟨reply, s''⟩, hhandle⟩ : ∃ x, handle crypto cfg s' (.release ("release-" ++ tokens.release.text)
    (ready.base plan).sessionId (ready.base plan).contractHash) (circumstances n) = x := ⟨_, rfl⟩
  rw [hhandle] at hreply
  have hreply' : reply = .released (ready.base plan).sessionId := hreply
  subst hreply'
  refine ⟨s'', ?_⟩
  rw [releaseSession, run_bind_ok (run_attempt (run_postRunner hhandle rfl))]
  exact run_check rfl

/-! ## How a transfer can fail -/

/-- The exception is a `StrixInertTransferError`, or there is a key with a slash at its end. -/
def Expected (files : Option Files) (e : TransferError) : Prop := e.isTransferError = true ∨ HasSlashKey files

theorem fails_postRunner (op : Operation) : Fails (Expected files) (postRunner op) := by
  refine fails_ask fun p e h => ?_
  cases p with
  | reply r => cases h
  | httpError code =>
    cases h
    exact .inl rfl
  | uncertain message =>
    cases h
    exact .inl rfl

variable {e : TransferError}

theorem canonicalPlan_error (h : canonicalPlan sha files = .error e) :
    e.isTransferError = true := by
  have hfiles : ∀ (items : List (PyKey × Option (List UInt8))) (total : Nat) (e : TransferError),
      checkFiles total items = .error e → e.isTransferError = true := by
    intro items
    induction items with
    | nil => exact fun total e h => by cases h
    | cons item items ih =>
      intro total e h
      unfold checkFiles at h
      split at h
      · split at h
        · cases h
          rfl
        split at h
        · cases h
          rfl
        · exact ih _ _ h
      · cases h
        rfl
  unfold canonicalPlan at h
  split at h
  · cases h
    rfl
  rename_i mapping
  obtain ⟨built, hbuilt⟩ : ∃ built, ManifestAdmission.buildStrixManifestAdmissionPlan sha (manifestOf mapping) = built := ⟨_, rfl⟩
  rw [hbuilt] at h
  split at h
  · cases h
    rfl
  split at h
  · rename_i e' he'
    cases h
    exact hfiles _ _ _ he'
  split at h
  · cases h
    rfl
  split at h
  · cases h
    rfl
  split at h
  · cases h
    rfl
  · cases h

theorem keys_error (h : keys args = .error e) : e.isTransferError = true := by
  unfold keys at h
  split at h
  · cases h
    rfl
  split at h
  · split at h
    · cases h
    cases h
    rfl
  · cases h
    rfl

theorem signTicket_error {secret : ManifestTicket.Secret} {id : String}
    (h : signTicket crypto secret args id plan = .error e) : e.isTransferError = true := by
  unfold signTicket at h
  split at h
  · cases h
    rfl
  · cases h

theorem fails_verificationSnapshot (base : SessionRef) (filePath : Option String) (token : Token) :
    Fails (Expected files) (verificationSnapshot base filePath token) := by
  refine fails_bind (fails_postRunner _) fun r => ?_
  split
  · exact fails_bind (fails_check (.inl rfl)) fun _ => fails_pure _
  · exact fails_throw (.inl rfl)

theorem fails_sendPlan (base : SessionRef) (text : String) (plan : AdmissionPlan) :
    Fails (Expected files) (sendPlan base tokens text plan) := by
  refine fails_attempt (fails_postRunner _) fun r hr => ?_
  split
  · exact fails_bind (fails_verificationSnapshot _ _ _) fun _ => fails_check (.inl rfl)
  · exact fails_throw (hr _ rfl)
  · exact fails_check (.inl rfl)
  · exact fails_throw (.inl rfl)

theorem fails_sendChunks (base : SessionRef) (plan : AdmissionPlan) (number : Nat) (entry : EntryPlan)
    (data sent : List UInt8) (offsets : List Nat) :
    Fails (Expected files) (sendChunks sha base tokens plan number entry data sent offsets) := by
  induction offsets generalizing sent with
  | nil => exact fails_pure ()
  | cons offset offsets ih =>
    refine fails_bind (fails_bind ?_ fun _ => fails_check (.inl rfl)) fun _ => ih _
    refine fails_attempt (fails_postRunner _) fun r hr => ?_
    split
    · exact fails_bind (fails_verificationSnapshot _ _ _) fun _ => fails_bind (fails_check (.inl rfl)) fun _ => fails_pure _
    · exact fails_throw (hr _ rfl)
    · exact fails_bind (fails_check (.inl rfl)) fun _ => fails_pure _
    · exact fails_throw (.inl rfl)

theorem fails_sendFiles (base : SessionRef) (plan : AdmissionPlan)
    {entries : List EntryPlan} (h : ∀ e ∈ entries, ∀ error, fileContent files e.path = .error error → HasSlashKey files) :
    Fails (Expected files) (sendFiles sha base tokens plan files number entries) := by
  induction entries generalizing number with
  | nil => exact fails_pure ()
  | cons entry entries ih =>
    refine fails_bind (fails_ofExcept fun e he => .inr (h entry List.mem_cons_self e he)) fun data => ?_
    exact fails_bind (fails_sendChunks _ _ _ _ _ _ _) fun _ => ih fun e he => h e (List.mem_cons_of_mem _ he)

theorem fails_releaseSession (base : SessionRef) :
    Fails (Expected files) (releaseSession base tokens) := by
  refine fails_attempt (fails_postRunner _) fun r hr => ?_
  split
  · refine fails_bind (fails_postRunner _) fun reply => ?_
    split
    · exact fails_bind (fails_check (.inl rfl)) fun _ => fails_check (.inl rfl)
    · exact fails_throw (.inl rfl)
  · exact fails_throw (hr _ rfl)
  · exact fails_check (.inl rfl)
  · exact fails_throw (.inl rfl)

theorem fails_prepareSession (plan : AdmissionPlan) (ticket : Ticket) :
    Fails (Expected files) (prepareSession args tokens plan ticket) := by
  refine fails_bind (fails_attempt (fails_postRunner _) fun r hr => ?_) fun r => ?_
  · split
    · exact fails_postRunner _
    · exact fails_ofExcept hr
  · split
    · exact fails_bind (fails_check (.inl rfl)) fun _ => fails_pure _
    · exact fails_throw (.inl rfl)

/-- Whatever the runner and the channel do, the call fails with a `StrixInertTransferError`, unless there is a key with a slash at
its end. -/
theorem fails_verifyInertManifestFiles (crypto : Crypto) (args : Arguments) (tokens : Tokens) :
    Fails (Expected args.files) (verifyInertManifestFiles crypto args tokens) := by
  refine fails_bind (fails_ofExcept fun e he => .inl (keys_error he)) fun secret => ?_
  refine fails_bind (fails_check (.inl rfl)) fun _ => ?_
  refine fails_ofExcept_bind (fun e he => .inl (canonicalPlan_error he)) fun found hfound => ?_
  obtain ⟨text, plan⟩ := found
  refine fails_bind (fails_ofExcept fun e he => .inl (signTicket_error he)) fun ticket => ?_
  refine fails_bind (fails_prepareSession _ _) fun sessionId => ?_
  refine fails_bind (fails_finally (fails_bind (fails_sendPlan _ _ _) fun _ => fails_sendFiles _ _ ?_)
    (fails_releaseSession _)) fun _ => fails_pure _
  intro e he error herror
  rcases fileContent_cases hfound (List.mem_filter.mp he).1 with ⟨data, hdata, -⟩ | ⟨-, hslash⟩
  · rw [hdata] at herror
    cases herror
  · exact hslash

/-! ## The transfer -/

/-- The transfer ends as it should: with a receipt or with a `StrixInertTransferError`, and with a receipt when the mapping is
accepted. -/
structure EndsCleanly (sha : Sha256) (files : Option Files) (r : Except TransferError Receipt) : Prop where
  caught : ∀ e, r = .error e → e.isTransferError = true
  transferred : (∃ text plan, canonicalPlan sha files = .ok (text, plan)) → ∃ receipt, r = .ok receipt

/-- The transfer of a mapping that is accepted. -/
theorem run_accepted (ready : Ready cfg args tokens circumstances s)
    (hplan : canonicalPlan crypto.sha args.files = .ok (text, plan)) :
    ∃ result, (run (serve crypto cfg circumstances) (verifyInertManifestFiles crypto args tokens).prog (0, s)).1 = result ∧
      (((∃ receipt, result = .ok receipt) ∧ ¬ HasSlashKey args.files) ∨
        ((∃ path, result = .error (.keyError path)) ∧ HasSlashKey args.files)) := by
  have hcounts := planCounts hplan
  obtain ⟨mapping, entries, hmapping, hforall, hperm, hplanned, -⟩ := plans_of_canonicalPlan hplan
  obtain ⟨s₁, hprepare, hsession⟩ := run_prepareSession ready hcounts
  obtain ⟨s₂, item, hsend, hgoing, hverified, hentries⟩ := run_sendPlan ready hplan (n := 1) hsession
  have hfilter : plan.entries.filter (fun e => e.kind = "file") = plan.entries := by
    refine List.filter_eq_self.mpr fun e he => ?_
    obtain ⟨data, heq⟩ := kind_of_canonicalPlan hplan he
    rw [heq]
    rfl
  have hlookup : ∀ e ∈ plan.entries, Lookup crypto.sha args.files e := by
    intro e he
    rcases fileContent_cases hplan he with hfound | ⟨hmissing, -⟩
    · exact .inl hfound
    · exact .inr hmissing
  have hbegin : item.fileProofs.entries = [] ++ plan.entries.map startEntry := hentries
  have htotal : plan.inlineFileCount = ([] : List (String × InertFileProof)).length + plan.entries.length := by
    rw [hcounts.files, hcounts.entries, List.length_nil, Nat.zero_add]
  obtain ⟨n₃, s₃, item₃, result, hfiles, hgoing₃, hresult⟩ := run_sendFiles (n := 1 + 1)
    ready hcounts hgoing hverified hbegin rfl rfl htotal hplanned.shape hlookup
  obtain ⟨s₄, hrelease⟩ := run_releaseSession ready (n := n₃) hgoing₃
  have htransfer : run (serve crypto cfg circumstances)
      (transferFiles crypto.sha (ready.base plan) tokens text plan args.files).prog (1, s₁) = (result, (n₃ + 1, s₄)) := by
    refine run_finally ?_ hrelease
    rw [run_bind_ok hsend, hfilter]
    exact hfiles
  have hkeys : run (serve crypto cfg circumstances) (Call.ofExcept (keys args) : Transfer ManifestTicket.Secret).prog (0, s) =
      (.ok ready.secret, (0, s)) := by
    rw [ready.keys]
    rfl
  have hread : run (serve crypto cfg circumstances)
      (Call.ofExcept (canonicalPlan crypto.sha args.files) : Transfer (String × AdmissionPlan)).prog (0, s) =
      (.ok (text, plan), (0, s)) := by
    rw [hplan]
    rfl
  have hticket : run (serve crypto cfg circumstances)
      (Call.ofExcept (signTicket crypto ready.secret args tokens.requestId plan) : Transfer Ticket).prog (0, s) =
      (.ok (readyTicket crypto ready plan), (0, s)) := by
    rw [signTicket_ready ready hcounts]
    rfl
  refine ⟨_, rfl, ?_⟩
  rw [verifyInertManifestFiles, run_bind_ok hkeys, run_bind_ok (run_check ready.authorized), run_bind_ok hread]
  dsimp only
  rw [run_bind_ok hticket, run_bind_ok hprepare,
    show (⟨ready.sessionId, args.contractHash, plan.manifestDigest⟩ : SessionRef) = ready.base plan from rfl]
  rcases hresult with ⟨rfl, hall⟩ | ⟨e, he, hmissing, rfl⟩
  · rw [run_bind_ok htransfer]
    refine .inl ⟨⟨_, rfl⟩, fun hslash => ?_⟩
    obtain ⟨e, he, hmissing⟩ := exists_keyError hplan hslash
    obtain ⟨data, hdata⟩ := hall e he
    rw [hdata] at hmissing
    cases hmissing
  · rw [run_bind_error htransfer]
    refine .inr ⟨⟨_, rfl⟩, ?_⟩
    rcases fileContent_cases hplan he with ⟨data, hdata, -⟩ | ⟨-, hslash⟩
    · rw [hdata] at hmissing
      cases hmissing
    · exact hslash

/-- Whatever the channel and the runner do, a mapping without a key that ends with a slash ends in a receipt or in a
`StrixInertTransferError`; and with everything delivered to a runner that is ready, the transfer ends as it should exactly when the
mapping is not accepted or has no such key. -/
theorem inert_transfer_clean (crypto : Crypto) (cfg : Config) (args : Arguments) (tokens : Tokens)
    (circumstances : Nat → Circumstances) (s : State) (ready : Ready cfg args tokens circumstances s) :
    (¬ HasSlashKey args.files →
      Fails (fun e => e.isTransferError = true) (verifyInertManifestFiles crypto args tokens)) ∧
    (EndsCleanly crypto.sha args.files
        (run (serve crypto cfg circumstances) (verifyInertManifestFiles crypto args tokens).prog (0, s)).1 ↔
      ∀ text plan, canonicalPlan crypto.sha args.files = .ok (text, plan) → ¬ HasSlashKey args.files) := by
  have hfails := fails_verifyInertManifestFiles crypto args tokens
  refine ⟨fun hslash => ?_, fun hclean text plan hplan hslash => ?_, fun hopen => ?_⟩
  · exact Fails.mono hfails fun e he => he.resolve_right hslash
  · obtain ⟨result, hresult, hcases⟩ := run_accepted ready hplan
    rw [hresult] at hclean
    obtain ⟨receipt, hreceipt⟩ := hclean.transferred ⟨text, plan, hplan⟩
    rcases hcases with ⟨-, hnone⟩ | ⟨⟨path, herror⟩, -⟩
    · exact hnone hslash
    · rw [hreceipt] at herror
      cases herror
  · cases hcanonical : canonicalPlan crypto.sha args.files with
    | ok found =>
      obtain ⟨text, plan⟩ := found
      obtain ⟨result, hresult, hcases⟩ := run_accepted ready hcanonical
      rw [hresult]
      rcases hcases with ⟨⟨receipt, hreceipt⟩, -⟩ | ⟨-, hslash⟩
      · exact ⟨fun e he => (by rw [hreceipt] at he; cases he), fun _ => ⟨receipt, hreceipt⟩⟩
      · exact absurd hslash (hopen text plan hcanonical)
    | error error =>
      have hkeys : run (serve crypto cfg circumstances) (Call.ofExcept (keys args) : Transfer ManifestTicket.Secret).prog (0, s) =
          (.ok ready.secret, (0, s)) := by
        rw [ready.keys]
        rfl
      have hread : run (serve crypto cfg circumstances)
          (Call.ofExcept (canonicalPlan crypto.sha args.files) : Transfer (String × AdmissionPlan)).prog (0, s) =
          (.error error, (0, s)) := by
        rw [hcanonical]
        rfl
      rw [verifyInertManifestFiles, run_bind_ok hkeys, run_bind_ok (run_check ready.authorized), run_bind_error hread]
      refine ⟨fun e he => ?_, fun haccepted => ?_⟩
      · cases he
        exact canonicalPlan_error hcanonical
      · obtain ⟨text, plan, hplan⟩ := haccepted
        rw [hcanonical] at hplan
        cases hplan

/-! ## A transfer of one file -/

/-- A mapping that is planned is accepted. -/
theorem canonicalPlan_of_build {mapping : Files} (hsize : mapping.size ≤ maxFiles)
    (hfiles : checkFiles 0 mapping.entries = .ok ())
    (hbuild : ManifestAdmission.buildStrixManifestAdmissionPlan sha (manifestOf mapping) = .ok plan) :
    canonicalPlan sha (some mapping) = .ok (plan.canonicalJson, plan) := by
  have haccepts := ManifestAdmission.runnerAccepts_of_int hbuild rfl
  obtain ⟨-, -, -, -, -, hdigest, -⟩ := ManifestAdmission.build_eq_ok hbuild
  have hbytes : ¬ maxCanonicalBytes < (utf8 plan.canonicalJson).length := by
    rw [length_utf8]
    intro hlt
    unfold ManifestAdmission.RunnerAccepts verifyCanonicalManifestPlan at haccepts
    rw [if_pos (.inr hlt)] at haccepts
    cases haccepts
  rw [canonicalPlan, if_neg (not_lt.mpr hsize), hfiles]
  dsimp only
  rw [hbuild]
  dsimp only
  rw [if_neg (not_not.mpr hdigest.symm), if_neg hbytes]

/-- A mapping with one file. -/
def sampleFiles (key : String) : Files := Dict.empty.set (.str (.text key)) (some [1, 2])

variable {key : String}

theorem mem_keys_sampleFiles {k : PyKey} : k ∈ (sampleFiles key).keys ↔ k = .str (.text key) := List.mem_singleton

/-- The plan of one file. -/
def sampleFilePlan (sha : Sha256) (path : String) : AdmissionPlan :=
  { ManifestAdmission.samplePlan (.int 1) with
    entries := [filePlan sha path [1, 2]]
    manifestDigest := sha.hex (utf8 (ManifestAdmission.canonicalPayload (.int 1) (.str "/workspace") [filePlan sha path [1, 2]] [])) }

theorem planEntries_sample (sha : Sha256)
    (hpath : normalizeEntryPath (.str (.text key)) = .ok path) (hoverlaps : ManifestAdmission.overlaps [path] = false) :
    ManifestAdmission.planEntries sha (manifestOf (sampleFiles key)).entries = .ok [filePlan sha path [1, 2]] := by
  have hitems : ManifestAdmission.planEntryItems sha [] 0 [(.str (.text key), ⟨some "file", some [1, 2], none⟩)] =
      .ok [filePlan sha path [1, 2]] := by
    rw [ManifestAdmission.planEntryItems, hpath]
    rfl
  have hmanifest : (manifestOf (sampleFiles key)).entries =
      some ⟨[(.str (.text key), ⟨some "file", some [1, 2], none⟩)], List.nodup_singleton _⟩ := rfl
  have hsize : ¬ ManifestAdmission.maxEntries <
      (⟨[(.str (.text key), ⟨some "file", some [1, 2], none⟩)], List.nodup_singleton _⟩ :
        Dict PyKey ManifestAdmission.Entry).size := (by decide : ¬ ManifestAdmission.maxEntries < 1)
  rw [hmanifest, ManifestAdmission.planEntries, if_neg hsize]
  dsimp only
  rw [hitems]
  dsimp only
  rw [show [filePlan sha path [1, 2]].map (·.path) = [path] from rfl, hoverlaps]
  rfl

theorem sample_slash : normalizeEntryPath (.str (.text "a/")) = .ok "a" ∧ ManifestAdmission.overlaps ["a"] = false := by
  decide +kernel

theorem sample_path : normalizeEntryPath (.str (.text "a/b")) = .ok "a/b" ∧ ManifestAdmission.overlaps ["a/b"] = false := by
  decide +kernel

/-- A mapping with one file is accepted. -/
theorem canonicalPlan_sample (sha : Sha256) (hpath : normalizeEntryPath (.str (.text key)) = .ok path)
    (hoverlaps : ManifestAdmission.overlaps [path] = false) :
    ∃ text, canonicalPlan sha (some (sampleFiles key)) = .ok (text, sampleFilePlan sha path) := by
  refine ⟨_, canonicalPlan_of_build (show 1 ≤ maxFiles by decide) rfl ?_⟩
  have hentries := planEntries_sample sha hpath hoverlaps
  obtain ⟨entries, hmanifest⟩ : ∃ entries, (manifestOf (sampleFiles key)).entries = entries := ⟨_, rfl⟩
  rw [hmanifest] at hentries
  have hbuild : ∀ result, ManifestAdmission.planEntries sha entries = result →
      ManifestAdmission.buildStrixManifestAdmissionPlan sha (manifestOf (sampleFiles key)) = .ok (sampleFilePlan sha path) := by
    rw [hentries]
    rintro result rfl
    unfold ManifestAdmission.buildStrixManifestAdmissionPlan
    rw [hmanifest, hentries]
    rfl
  exact hbuild _ rfl

def sampleToken : Token := ⟨String.ofList (List.replicate 32 '0'), by decide +kernel⟩

example : sampleToken.text.length = 32 := by decide +kernel

def sampleTokens : Tokens :=
  ⟨sampleToken, sampleToken, sampleToken, sampleToken, fun _ _ => sampleToken, fun _ _ => sampleToken, sampleToken, sampleToken⟩

def sampleArguments (key : String) : Arguments where
  verificationKey := "contract-verification-key"
  admissionKey := "manifest-admission-secret-of-the-runner"
  transportKey := "transport-secret-of-the-runner-rpc-service"
  authorized := true
  contractHash := ManifestAdmission.sampleSha.hex []
  image := .text "strix"
  exposedPorts := []
  files := some (sampleFiles key)
  clock := some 100

def sampleCircumstances (_ : Nat) : Circumstances := ⟨some 100, some 0, some 100, false, [sampleToken.text]⟩

theorem sampleSecret_min : 32 ≤ "manifest-admission-secret-of-the-runner".toUTF8.size := by decide +kernel

theorem sampleSecret_max : "manifest-admission-secret-of-the-runner".toUTF8.size ≤ 4096 := by decide +kernel

def sampleSecret : ManifestTicket.Secret := ⟨"manifest-admission-secret-of-the-runner", sampleSecret_min, sampleSecret_max⟩

theorem keys_sample (key : String) : keys (sampleArguments key) = .ok sampleSecret := by
  have hcontract : ¬ ("contract-verification-key" = "" ∨ 4096 < "contract-verification-key".utf8ByteSize) := by decide +kernel
  have hsecret : 32 ≤ "manifest-admission-secret-of-the-runner".utf8ByteSize ∧
      "manifest-admission-secret-of-the-runner".utf8ByteSize ≤ 4096 := by decide +kernel
  have htransport : 32 ≤ "transport-secret-of-the-runner-rpc-service".utf8ByteSize ∧
      "transport-secret-of-the-runner-rpc-service".utf8ByteSize ≤ 4096 := by decide +kernel
  exact (if_neg hcontract).trans ((dif_pos hsecret).trans (if_pos htransport))

theorem times_sample : ((1 : ℚ) ≤ 100 ∧ (100 : ℚ) + ttlSeconds ≤ maxClock) ∧
    ((1 : ℚ) ≤ 100 ∧ (100 : ℚ) ≤ 100 + clockSkewSeconds ∧ (100 : ℚ) < ⌊(100 : ℚ)⌋ + ttlSeconds) ∧
    (0 : ℚ) < 0 + preparedSessionTtl := by
  decide +kernel

theorem monotonic_sample (n : Nat) : ∃ t, (sampleCircumstances n).monotonic = some t ∧ t < 0 + preparedSessionTtl :=
  ⟨0, rfl, times_sample.2.2⟩

theorem names_sample : isImage (.text "strix") = true ∧ isSessionId ("prepared-" ++ sampleToken.text) = true := by
  decide +kernel

theorem rooms_sample : sampleStart.journal.size < maxPreparationTickets ∧ sampleStart.memory.tickets.size < maxPreparationTickets ∧
    sampleStart.memory.prepared.size < maxPreparedSessions := by
  decide

theorem fresh_sample (k : String × String) : k ∉ sampleStart.journal.keys ∧ k ∉ sampleStart.memory.tickets.keys := by
  simp [sampleStart, Memory.empty, Dict.keys, Dict.empty]

/-- A runner that has just been started is ready. -/
def sampleReady (key : String) : Ready sampleConfig (sampleArguments key) sampleTokens sampleCircumstances sampleStart where
  secret := sampleSecret
  keys := keys_sample key
  shared := rfl
  authorized := rfl
  contract := ManifestAdmission.sampleSha.hex_valid []
  image := "strix"
  image_eq := rfl
  image_ok := names_sample.1
  ports := rfl
  now := 100
  clock := rfl
  clock_le := times_sample.1
  wall := 100
  wall_eq := rfl
  wall_ok := times_sample.2.1
  inert := rfl
  store := rfl
  start := 0
  start_eq := rfl
  monotonic := monotonic_sample
  journalWall := 100
  journalWall_eq := rfl
  journalWorks := rfl
  journalFresh := (fresh_sample _).1
  journalRoom := rooms_sample.1
  ticketFresh := (fresh_sample _).2
  ticketRoom := rooms_sample.2.1
  sessionRoom := rooms_sample.2.2
  sessionId := "prepared-" ++ sampleToken.text
  drawn := rfl
  sessionId_ok := names_sample.2

theorem not_hasSlashKey_sample : ¬ HasSlashKey (sampleArguments "a/b").files := by
  rintro ⟨mapping, hmapping, key, hkey, hends⟩
  cases hmapping
  rw [mem_keys_sampleFiles.mp hkey] at hends
  revert hends
  decide

theorem inert_transfer_clean_sample :
    EndsCleanly sampleCrypto.sha (sampleArguments "a/b").files (run (serve sampleCrypto sampleConfig sampleCircumstances)
      (verifyInertManifestFiles sampleCrypto (sampleArguments "a/b") sampleTokens).prog (0, sampleStart)).1 := by
  refine (inert_transfer_clean _ _ _ _ _ _ (sampleReady "a/b")).2.mpr ?_
  exact fun text plan _ => not_hasSlashKey_sample

/-- The key `a/` is accepted, and the transfer stops with a `KeyError` after the session is prepared. -/
theorem slash_key_not_transferred :
    (∃ text plan, canonicalPlan sampleCrypto.sha (sampleArguments "a/").files = .ok (text, plan)) ∧
      ∃ path, (run (serve sampleCrypto sampleConfig sampleCircumstances)
        (verifyInertManifestFiles sampleCrypto (sampleArguments "a/") sampleTokens).prog (0, sampleStart)).1 =
          .error (.keyError path) := by
  obtain ⟨text, hplan⟩ := canonicalPlan_sample sampleCrypto.sha sample_slash.1 sample_slash.2
  have hslash : HasSlashKey (sampleArguments "a/").files :=
    ⟨sampleFiles "a/", rfl, .str (.text "a/"), mem_keys_sampleFiles.mpr rfl, by decide⟩
  refine ⟨⟨text, _, hplan⟩, ?_⟩
  obtain ⟨result, hresult, hcases⟩ := run_accepted (sampleReady "a/") hplan
  rcases hcases with ⟨-, hnone⟩ | ⟨hpath, -⟩
  · exact absurd hslash hnone
  · rw [hresult]
    exact hpath

end InertTransfer

end XbowPerso
