import EthIndexer.Common.Conduct
import EthIndexer.Runtime.Config
/-!
# The command releases what it opens, and starts only what it has checked

Two things are followed through the calls of `run`: what is open, and
whether `runServices` has returned. A call may use only what is open, may
open only what is not, and may close only what was opened last; after
`runServices` has returned, there are only closes.
-/

namespace EthIndexer

namespace Runtime

variable {lib : Libraries} {args : List String} {cfg : Config} {past : List Event}

/-! ## What is open -/

inductive Resource
  | file
  | pool
  | client
  deriving DecidableEq

/-- What is open, the last opened first, and what `runServices` has
returned. -/
structure Progress where
  held : List Resource
  returned : Option (Option Err)

def Progress.after (p : Progress) : Event → Progress
  | ⟨.openFile _, none⟩ => { p with held := .file :: p.held }
  | ⟨.newPool _, none⟩ => { p with held := .pool :: p.held }
  | ⟨.dialContext _ _, none⟩ => { p with held := .client :: p.held }
  | ⟨.closeFile, _⟩ => { p with held := p.held.erase .file }
  | ⟨.closePool, _⟩ => { p with held := p.held.erase .pool }
  | ⟨.closeClient, _⟩ => { p with held := p.held.erase .client }
  | ⟨.runServices _, err⟩ => { p with returned := some err }
  | _ => p

/-- Where a run stands after what has happened. -/
def progress (past : List Event) : Progress := past.foldl .after ⟨[], none⟩

theorem progress_append {p : Progress} (hp : progress past = p) (e : Event) :
    progress (past ++ [e]) = p.after e := by
  rw [← hp, progress, List.foldl_append]
  rfl

def Call.opens : Call → Option Resource
  | .openFile _ => some .file
  | .newPool _ => some .pool
  | .dialContext _ _ => some .client
  | _ => none

def Call.closes : Call → Option Resource
  | .closeFile => some .file
  | .closePool => some .pool
  | .closeClient => some .client
  | _ => none

/-- The services use the client and the pool throughout. -/
def Call.uses : Call → List Resource
  | .decode _ | .decodeExtra => [.file]
  | .ping _ => [.pool]
  | .chainID _ => [.client]
  | .runServices _ => [.client, .pool]
  | _ => []

/-- **What a call needs.** -/
structure Permitted (p : Progress) (c : Call) : Prop where
  opens : ∀ r ∈ c.opens, r ∉ p.held
  uses : ∀ r ∈ c.uses, r ∈ p.held
  closes : ∀ r ∈ c.closes, p.held.head? = some r
  last : c.closes = none → p.returned = none

/-! ## What is known -/

/-- The configuration is that of one file, over the defaults and overridden
by the environment. -/
structure FromFile (path : String) (past : List Event) (cfg : Config) : Prop where
  opened : ⟨.openFile path, none⟩ ∈ past
  decoded : ∃ file rpcURL databaseURL logLevel,
    ⟨.decode .default, .ok file⟩ ∈ past ∧ ⟨.getenv "ETH_RPC_URL", rpcURL⟩ ∈ past ∧
    ⟨.getenv "DATABASE_URL", databaseURL⟩ ∈ past ∧ ⟨.getenv "LOG_LEVEL", logLevel⟩ ∈ past ∧
    cfg = file.override rpcURL databaseURL logLevel
  extra : ⟨.decodeExtra, .eof⟩ ∈ past

structure Loaded (lib : Libraries) (path : String) (past : List Event) (cfg : Config) : Prop where
  source : FromFile path past cfg
  valid : cfg.Valid lib

/-- The file is the one of the command line, which holds nothing else. -/
structure Configured (lib : Libraries) (args : List String) (past : List Event) (cfg : Config) :
    Prop where
  flags : ∃ env path, ⟨.getenv "CONFIG_FILE", env⟩ ∈ past ∧
    ⟨.parseFlags (configPath env) args, .parsed path []⟩ ∈ past ∧ FromFile path past cfg
  valid : cfg.Valid lib
  logger : newLogger lib cfg.app.logLevel = .ok ()

/-- The pool was made as configured, and the database has answered. -/
structure Connected (past : List Event) (cfg : Config) : Prop where
  parsed : ⟨.parseConfig cfg.database.url, none⟩ ∈ past
  pool : ⟨.newPool cfg.postgresOptions, none⟩ ∈ past
  pinged : ⟨.ping cfg.database.connectTimeout, none⟩ ∈ past

/-- **What is known when the services are started.** -/
structure Checked (lib : Libraries) (args : List String) (past : List Event) (cfg : Config) :
    Prop where
  configured : Configured lib args past cfg
  connected : Connected past cfg
  dialled : ⟨.dialContext cfg.ethereum.rpcURL cfg.ethereum.rpcTimeout, none⟩ ∈ past
  chainID : ⟨.chainID cfg.ethereum.rpcTimeout, .ok (some 1)⟩ ∈ past

section Later

variable {past' : List Event} (hpast : past <+: past')

include hpast

/-- Where the configuration comes from does not change. -/
theorem FromFile.later {path : String} (h : FromFile path past cfg) : FromFile path past' cfg := by
  obtain ⟨file, rpcURL, databaseURL, logLevel, h₁, h₂, h₃, h₄, hcfg⟩ := h.decoded
  exact ⟨hpast.mem h.opened, ⟨file, rpcURL, databaseURL, logLevel, hpast.mem h₁, hpast.mem h₂,
    hpast.mem h₃, hpast.mem h₄, hcfg⟩, hpast.mem h.extra⟩

theorem Configured.later (h : Configured lib args past cfg) : Configured lib args past' cfg := by
  obtain ⟨env, path, henv, hflags, hfile⟩ := h.flags
  exact ⟨⟨env, path, hpast.mem henv, hpast.mem hflags, hfile.later hpast⟩, h.valid, h.logger⟩

theorem Connected.later (h : Connected past cfg) : Connected past' cfg :=
  ⟨hpast.mem h.parsed, hpast.mem h.pool, hpast.mem h.pinged⟩

end Later

/-- **The rule of the startup.** -/
def Rule (lib : Libraries) (args : List String) (past : List Event) (c : Call) : Prop :=
  Permitted (progress past) c ∧ ∀ s, c = .runServices s →
    (progress past).held = [.client, .pool] ∧ ∃ cfg, Checked lib args past cfg ∧ s = cfg.services

/-- A call that starts no services only needs what is open. -/
theorem rule_of_permitted {c : Call} {p : Progress} (hp : progress past = p) (h : Permitted p c)
    (hc : ∀ s, c ≠ .runServices s) : Rule lib args past c :=
  ⟨hp ▸ h, fun s hs => absurd hs (hc s)⟩

/-- A call that neither opens nor closes, and uses what is open. -/
theorem rule_of_uses {c : Call} {held : List Resource} (hp : progress past = ⟨held, none⟩)
    (hopens : c.opens = none) (hcloses : c.closes = none) (huses : ∀ r ∈ c.uses, r ∈ held)
    (hc : ∀ s, c ≠ .runServices s) : Rule lib args past c := by
  refine rule_of_permitted hp ⟨?_, huses, ?_, fun _ => rfl⟩ hc
  · simp [hopens]
  · simp [hcloses]

/-- A close of what was opened last. -/
theorem rule_of_closes {c : Call} {r : Resource} {held : List Resource}
    {returned : Option (Option Err)} (hp : progress past = ⟨r :: held, returned⟩)
    (hopens : c.opens = none) (huses : c.uses = []) (hcloses : c.closes = some r) :
    Rule lib args past c := by
  refine rule_of_permitted hp ⟨?_, ?_, ?_, ?_⟩ ?_
  · simp [hopens]
  · simp [huses]
  · simp [hcloses]
  · simp [hcloses]
  · rintro s rfl
    cases hcloses

/-! ## The configuration -/

/-- **The environment** is read variable by variable, over what the file
says. -/
theorem obeys_applyEnvironment {held : List Resource} (hp : progress past = ⟨held, none⟩)
    (file : Config) :
    (applyEnvironment file).Obeys (Rule lib args) (fun x past' => progress past' = ⟨held, none⟩ ∧
      ∃ rpcURL databaseURL logLevel, ⟨.getenv "ETH_RPC_URL", rpcURL⟩ ∈ past' ∧
        ⟨.getenv "DATABASE_URL", databaseURL⟩ ∈ past' ∧ ⟨.getenv "LOG_LEVEL", logLevel⟩ ∈ past' ∧
        x = .ok (file.override rpcURL databaseURL logLevel)) past := by
  have hrule : ∀ past' name, progress past' = ⟨held, none⟩ → Rule lib args past' (.getenv name) :=
    fun past' name hp' => rule_of_uses hp' rfl rfl (List.forall_mem_nil _) (fun _ h => by cases h)
  refine Session.Obeys.ask_bind (hrule _ _ hp) fun rpcURL => ?_
  have hp₁ := progress_append hp ⟨.getenv "ETH_RPC_URL", rpcURL⟩
  refine Session.Obeys.ask_bind (hrule _ _ hp₁) fun databaseURL => ?_
  have hp₂ := progress_append hp₁ ⟨.getenv "DATABASE_URL", databaseURL⟩
  refine Session.Obeys.ask_bind (hrule _ _ hp₂) fun logLevel => ?_
  refine Session.obeys_ret.2
    ⟨progress_append hp₂ _, rpcURL, databaseURL, logLevel, ?_, ?_, ?_, rfl⟩ <;> simp

/-- A failed call whose answer was an error from the start. -/
theorem eq_ok_of_mapError {α : Type} {f : Err → Err} {x : Except Err α} {a : α}
    (h : x.mapError f = .ok a) : x = .ok a := by
  cases x with
  | error e => cases h
  | ok b => exact h

theorem mapError_ok {α : Type} (f : Err → Err) (a : α) :
    (Except.ok a : Except Err α).mapError f = .ok a := rfl

theorem succeed_none : succeed none = .ok () := rfl

theorem eq_none_of_succeed {err : Option Err} {u : Unit} (h : succeed err = .ok u) :
    err = none := by
  cases err with
  | none => rfl
  | some e => cases h

/-- **The file** is decoded once, to its end, and checked. -/
theorem obeys_decodeFile {path : String} (hp : progress past = ⟨[.file], none⟩)
    (hopened : ⟨.openFile path, none⟩ ∈ past) :
    (decodeFile lib).Obeys (Rule lib args) (fun x past' => progress past' = ⟨[.file], none⟩ ∧
      ∀ cfg, x = .ok cfg → Loaded lib path past' cfg) past := by
  refine Session.Obeys.request_bind
    (rule_of_uses hp rfl rfl (by simp [Call.uses]) (fun _ h => by cases h)) ?_ ?_
  · exact fun answer e _ => ⟨progress_append hp _, fun cfg hcfg => by cases hcfg⟩
  intro answer file hfile
  have hp₁ : progress _ = ⟨[.file], none⟩ := progress_append hp ⟨.decode .default, answer⟩
  refine Session.Obeys.ask_bind
    (rule_of_uses hp₁ rfl rfl (by simp [Call.uses]) (fun _ h => by cases h)) fun extra => ?_
  have hp₂ : progress _ = ⟨[.file], none⟩ := progress_append hp₁ ⟨.decodeExtra, extra⟩
  cases extra with
  | document => exact Session.obeys_ret.2 ⟨hp₂, fun cfg hcfg => by cases hcfg⟩
  | failed err => exact Session.obeys_ret.2 ⟨hp₂, fun cfg hcfg => by cases hcfg⟩
  | eof =>
    refine (obeys_applyEnvironment hp₂ file).bind ?_ ?_
    · rintro e past' - ⟨-, _, _, _, -, -, -, he⟩
      cases he
    rintro cfg past' hpast ⟨hp', rpcURL, databaseURL, logLevel, hrpc, hdatabase, hlevel, hcfg⟩
    cases hvalidate : cfg.validate lib with
    | some err => exact Session.obeys_ret.2 ⟨hp', fun cfg hcfg => by cases hcfg⟩
    | none =>
      refine Session.obeys_ret.2 ⟨hp', fun cfg' hok => ?_⟩
      rw [← Except.ok.inj hok]
      refine ⟨⟨hpast.mem (by simp [hopened]), ?_, hpast.mem (by simp)⟩,
        Config.validate_eq_none_iff.1 hvalidate⟩
      refine ⟨file, rpcURL, databaseURL, logLevel, ?_, hrpc, hdatabase, hlevel, Except.ok.inj hcfg⟩
      exact hpast.mem (by simp [eq_ok_of_mapError hfile])

/-- The file is opened and closed again, whatever is in it. -/
theorem obeys_load (hp : progress past = ⟨[], none⟩) (path : String) :
    (load lib path).Obeys (Rule lib args) (fun x past' => progress past' = ⟨[], none⟩ ∧
      ∀ cfg, x = .ok cfg → Loaded lib path past' cfg) past := by
  refine Session.Obeys.request_bind (rule_of_permitted hp
    ⟨by simp, by simp [Call.uses], by simp [Call.closes], fun _ => rfl⟩ (fun _ h => by cases h))
    ?_ ?_
  · intro answer e he
    cases answer with
    | none => cases he
    | some err => exact ⟨progress_append hp _, fun cfg hcfg => by cases hcfg⟩
  · intro answer _ hopen
    cases answer with
    | some err => cases hopen
    | none =>
      have hopened : ⟨.openFile path, none⟩ ∈ past ++ [⟨.openFile path, none⟩] := by simp
      refine (obeys_decodeFile (progress_append hp _) hopened).defer fun x past' _ hx => ?_
      refine Session.obeys_request.2
        ⟨rule_of_closes hx.1 rfl rfl rfl, fun _ => ⟨rfl, progress_append hx.1 _, ?_⟩⟩
      intro cfg hcfg
      have hloaded := hx.2 cfg hcfg
      exact ⟨hloaded.source.later (List.prefix_append _ _), hloaded.valid⟩

/-! ## The database and the node -/

/-- What a step leaves that opens something, or only learns something: the
one open before if it fails, and the other if not. -/
def Leaves (failed done : List Resource) (known : List Event → Prop) :
    Except Err Unit → List Event → Prop
  | .error _, past => progress past = ⟨failed, none⟩
  | .ok _, past => progress past = ⟨done, none⟩ ∧ known past

/-- **The pool** is kept if it answers, and closed if not. -/
theorem obeys_openPostgres (hp : progress past = ⟨[], none⟩) :
    (openPostgres cfg.postgresOptions).Obeys (Rule lib args) (Leaves [] [.pool] (Connected · cfg))
      past := by
  refine Session.Obeys.request_bind
    (rule_of_uses hp rfl rfl (List.forall_mem_nil _) (fun _ h => by cases h)) ?_ ?_
  · exact fun answer e _ => progress_append hp _
  intro answer _ hparsed
  obtain rfl := eq_none_of_succeed (eq_ok_of_mapError hparsed)
  have hp₁ : progress _ = ⟨[], none⟩ :=
    progress_append hp ⟨.parseConfig cfg.postgresOptions.url, none⟩
  refine Session.Obeys.request_bind (rule_of_permitted hp₁
    ⟨by simp, by simp [Call.uses], by simp [Call.closes], fun _ => rfl⟩ (fun _ h => by cases h))
    ?_ ?_
  · intro answer e he
    cases answer with
    | none => cases he
    | some err => exact progress_append hp₁ _
  intro answer _ hpool
  obtain rfl := eq_none_of_succeed (eq_ok_of_mapError hpool)
  have hp₂ : progress _ = ⟨[.pool], none⟩ :=
    progress_append hp₁ ⟨.newPool cfg.postgresOptions, none⟩
  refine Session.Obeys.ask_bind
    (rule_of_uses hp₂ rfl rfl (by simp [Call.uses]) (fun _ h => by cases h)) fun pinged => ?_
  have hp₃ : progress _ = ⟨[.pool], none⟩ :=
    progress_append hp₂ ⟨.ping cfg.postgresOptions.connectTimeout, pinged⟩
  cases pinged with
  | none =>
    exact Session.obeys_ret.2
      ⟨hp₃, by simp [Config.postgresOptions], by simp, by simp [Config.postgresOptions]⟩
  | some err =>
    -- The pool is closed again before the error is returned.
    exact Session.Obeys.ask_bind (rule_of_closes hp₃ rfl rfl rfl)
      fun _ => Session.obeys_ret.2 (progress_append hp₃ ⟨.closePool, ()⟩)

theorem obeys_failIf {failed : Prop} [Decidable failed] {text : String} {held : List Resource}
    (hp : progress past = ⟨held, none⟩) :
    (failIf failed text).Obeys (Rule lib args)
      (Leaves held held fun past' => past' = past ∧ ¬ failed) past := by
  refine Session.obeys_lift.2 ?_
  split
  · exact hp
  · exact ⟨hp, rfl, by assumption⟩

/-- **The client** is kept, with the pool. -/
theorem obeys_dial (hp : progress past = ⟨[.pool], none⟩) (rpcURL : String) (timeout : Duration) :
    (dial rpcURL timeout).Obeys (Rule lib args)
      (Leaves [.pool] [.client, .pool] (⟨.dialContext rpcURL timeout, none⟩ ∈ ·)) past := by
  refine (obeys_failIf hp).bind (fun _ _ _ h => h) ?_
  rintro _ _ - ⟨-, rfl, -⟩
  refine (obeys_failIf hp).bind (fun _ _ _ h => h) ?_
  rintro _ _ - ⟨-, rfl, -⟩
  refine Session.obeys_request.2 ⟨rule_of_permitted hp ⟨by simp [Call.opens], by simp [Call.uses],
    by simp [Call.closes], fun _ => rfl⟩ (fun _ h => by cases h), fun answer => ?_⟩
  cases answer with
  | some err => exact progress_append hp _
  | none => exact ⟨progress_append hp _, by simp⟩

/-- The node is asked for its chain, which has to be the configured one. -/
theorem obeys_validateChainID {expected : UInt64} {timeout : Duration}
    (hp : progress past = ⟨[.client, .pool], none⟩) :
    (validateChainID timeout expected).Obeys (Rule lib args)
      (Leaves [.client, .pool] [.client, .pool]
        (⟨.chainID timeout, .ok (some (expected.toNat : ℤ))⟩ ∈ ·)) past := by
  refine Session.Obeys.request_bind
    (rule_of_uses hp rfl rfl (by simp [Call.uses]) (fun _ h => by cases h)) ?_ ?_
  · exact fun answer e _ => progress_append hp _
  intro answer actual hactual
  have hp₁ : progress _ = ⟨[.client, .pool], none⟩ :=
    progress_append hp ⟨.chainID timeout, answer⟩
  refine (obeys_failIf hp₁).mono fun x past' hpast hx => ?_
  cases x with
  | error e => exact hx
  | ok u =>
    obtain ⟨hp', rfl, hsame⟩ := hx
    rw [not_not, asUint64_eq_some_iff] at hsame
    exact ⟨hp', by simp [eq_ok_of_mapError hactual, hsame]⟩

/-! ## The services -/

/-- How the command ends, by what `runServices` has returned. -/
def ReturnedAs : Option (Option Err) → Except Err Unit → Prop
  | none, x => ∃ e, x = .error e
  | some err, x => x = succeed err

/-- The services have returned, or something failed before they were
started. -/
structure Finished (held : List Resource) (x : Except Err Unit) (past : List Event) : Prop where
  held : (progress past).held = held
  outcome : ReturnedAs (progress past).returned x

/-- A failure leaves what was held to its owner. -/
theorem finished_of_error {held : List Resource} (hp : progress past = ⟨held, none⟩) (e : Err) :
    Finished held (.error e) past := by
  refine ⟨by rw [hp], ?_⟩
  rw [hp]
  exact ⟨e, rfl⟩

/-- A step on the way to the services, with its error wrapped, and then
what follows it. -/
theorem obeys_step {failed done : List Resource} {known : List Event → Prop} {f : Err → Err}
    {p : Startup Unit} {g : Unit → Startup Unit}
    (hp : p.Obeys (Rule lib args) (Leaves failed done known) past)
    (hg : ∀ past', past <+: past' → progress past' = ⟨done, none⟩ → known past' →
      (g ()).Obeys (Rule lib args) (Finished failed) past') :
    (p.mapError f >>= g).Obeys (Rule lib args) (Finished failed) past := by
  have hwrapped : (p.mapError f).Obeys (Rule lib args) (Leaves failed done known) past := by
    refine Session.obeys_mapError.2 (hp.mono fun x past' _ hx => ?_)
    cases x <;> exact hx
  exact hwrapped.bind (fun e past' _ hp' => finished_of_error hp' e)
    (fun _ past' hpast hx => hg past' hpast hx.1 hx.2)

/-- A deferred close, after whatever has become of the services. -/
theorem Finished.close {c : Call} {r : Resource} {held : List Resource} {x : Except Err Unit}
    (h : Finished (r :: held) x past) (hcloses : c.closes = some r) (hopens : c.opens = none)
    (huses : c.uses = []) (hafter : ∀ p a, Progress.after p ⟨c, a⟩ = { p with held := p.held.erase r })
    {f : Answer c → Except Err Unit} (hf : ∀ a, f a = .ok ()) :
    (Session.request c f).Obeys (Rule lib args) (fun y past' => y = .ok () ∧ Finished held x past')
      past := by
  have hp : progress past = ⟨r :: held, (progress past).returned⟩ := by rw [← h.held]
  refine Session.obeys_request.2
    ⟨rule_of_closes hp hopens huses hcloses, fun a => ⟨hf a, ?_⟩⟩
  have hp' : progress (past ++ [⟨c, a⟩]) = (progress past).after ⟨c, a⟩ := progress_append rfl _
  rw [hafter, h.held, List.erase_cons_head] at hp'
  refine ⟨by rw [hp'], ?_⟩
  rw [hp']
  exact h.outcome

/-- **The services** start when all is connected and the chain is
checked. -/
theorem obeys_serve (hp : progress past = ⟨[.client, .pool], none⟩)
    (hconfigured : Configured lib args past cfg) (hconnected : Connected past cfg)
    (hdialled : ⟨.dialContext cfg.ethereum.rpcURL cfg.ethereum.rpcTimeout, none⟩ ∈ past) :
    (serve cfg).Obeys (Rule lib args) (Finished [.client, .pool]) past := by
  refine obeys_step (obeys_validateChainID hp) fun past' hpast hp' hchain => ?_
  rw [hconfigured.valid.ethereum.chainID] at hchain
  refine Session.obeys_request.2 ⟨⟨?_, ?_⟩, fun answer => ?_⟩
  · rw [hp']
    exact ⟨by simp [Call.opens], by simp [Call.uses], by simp [Call.closes], fun _ => rfl⟩
  · intro s hs
    cases hs
    exact ⟨by rw [hp'], cfg, ⟨hconfigured.later hpast, hconnected.later hpast,
      hpast.mem hdialled, hchain⟩, rfl⟩
  · have hp'' := progress_append hp' ⟨.runServices cfg.services, answer⟩
    refine ⟨by rw [hp'']; rfl, ?_⟩
    rw [hp'']
    exact rfl

/-- The client is closed when they have ended. -/
theorem obeys_connect (hp : progress past = ⟨[.pool], none⟩)
    (hconfigured : Configured lib args past cfg) (hconnected : Connected past cfg) :
    (connect cfg).Obeys (Rule lib args) (Finished [.pool]) past := by
  refine obeys_step (obeys_dial hp _ _) fun past' hpast hp' hdialled => ?_
  have hserve := obeys_serve hp' (hconfigured.later hpast) (hconnected.later hpast) hdialled
  exact hserve.defer fun x past'' _ hx => hx.close rfl rfl rfl (fun _ _ => rfl) (fun _ => rfl)

theorem obeys_start {path : String} (hp : progress past = ⟨[], none⟩)
    (hloaded : Loaded lib path past cfg)
    (hflags : ∃ env, ⟨.getenv "CONFIG_FILE", env⟩ ∈ past ∧
      ⟨.parseFlags (configPath env) args, .parsed path []⟩ ∈ past) :
    (start lib cfg).Obeys (Rule lib args) (Finished []) past := by
  unfold start
  cases hlogger : newLogger lib cfg.app.logLevel with
  | error e => exact Session.obeys_ret.2 (finished_of_error hp _)
  | ok u =>
    obtain ⟨env, henv, hflags⟩ := hflags
    have hconfigured : Configured lib args past cfg :=
      ⟨⟨env, path, henv, hflags, hloaded.source⟩, hloaded.valid, hlogger⟩
    refine obeys_step (obeys_openPostgres hp) fun past' hpast hp' hconnected => ?_
    have hconnect := obeys_connect hp' (hconfigured.later hpast) hconnected
    exact hconnect.defer fun x past'' _ hx => hx.close rfl rfl rfl (fun _ _ => rfl) (fun _ => rfl)

/-- How the whole command ends: as any start of the services, or after
having told how it is used. -/
def Ended (args : List String) (x : Except Err Unit) (past : List Event) : Prop :=
  Finished [] x past ∨
    (progress past = ⟨[], none⟩ ∧ x = .ok () ∧ ∃ path, ⟨.parseFlags path args, .help⟩ ∈ past)

theorem Ended.held {x : Except Err Unit} (h : Ended args x past) : (progress past).held = [] := by
  rcases h with hfinished | ⟨hp, -⟩
  · exact hfinished.held
  · rw [hp]

/-- A command whose services have returned ends as they did. -/
theorem Ended.eq_succeed {x : Except Err Unit} {err : Option Err} (h : Ended args x past)
    (hreturned : (progress past).returned = some err) : x = succeed err := by
  rcases h with hfinished | ⟨hp, -⟩
  · have houtcome := hfinished.outcome
    rw [hreturned] at houtcome
    exact houtcome
  · rw [hp] at hreturned
    cases hreturned

/-- **The command keeps to its rule.** -/
theorem obeys_run : (run lib args).Obeys (Rule lib args) (Ended args) [] := by
  have hp : progress [] = ⟨[], none⟩ := rfl
  refine Session.Obeys.ask_bind
    (rule_of_uses hp rfl rfl (List.forall_mem_nil _) (fun _ h => by cases h)) fun env => ?_
  have hp₁ : progress _ = ⟨[], none⟩ := progress_append hp ⟨.getenv "CONFIG_FILE", env⟩
  refine Session.Obeys.ask_bind
    (rule_of_uses hp₁ rfl rfl (List.forall_mem_nil _) (fun _ h => by cases h)) fun flags => ?_
  have hp₂ : progress _ = ⟨[], none⟩ := progress_append hp₁ ⟨.parseFlags (configPath env) args, flags⟩
  cases flags with
  | help => exact Session.obeys_ret.2 (Or.inr ⟨hp₂, rfl, configPath env, by simp⟩)
  | invalid err => exact Session.obeys_ret.2 (Or.inl (finished_of_error hp₂ _))
  | parsed path rest =>
    refine (obeys_failIf hp₂).bind (fun e past' _ hp' => Or.inl (finished_of_error hp' e)) ?_
    rintro _ past' - ⟨-, rfl, hrest⟩
    obtain rfl := not_not.1 hrest
    have hload : ((load lib path).mapError (Err.wrap "load configuration")).Obeys (Rule lib args)
        (fun x past' => progress past' = ⟨[], none⟩ ∧ ∀ cfg, x = .ok cfg → Loaded lib path past' cfg)
        _ := Session.obeys_mapError.2 ((obeys_load hp₂ path).mono fun x past' _ hx =>
      ⟨hx.1, fun cfg hcfg => hx.2 cfg (eq_ok_of_mapError hcfg)⟩)
    refine hload.bind (fun e past' _ hx => Or.inl (finished_of_error hx.1 e)) ?_
    intro cfg past' hpast hx
    refine (obeys_start hx.1 (hx.2 cfg rfl) ⟨env, ?_, ?_⟩).mono fun _ _ _ => Or.inl
    · exact hpast.mem (by simp)
    · exact hpast.mem (by simp)

/-! ## Every run -/

section Runs

variable (lib : Libraries) (args : List String) (answer : ℕ → (c : Call) → Answer c)

/-- The end of a run, and what happened up to it. -/
theorem ended_and_ruled :
    let result := (run lib args).recorded answer
    Ended args result.1 result.2 ∧
      ∀ pre e rest, result.2 = pre ++ e :: rest → Rule lib args pre e.1 :=
  obeys_run.of_traces (Session.recorded_eq_iff.1 rfl).1

/-- **Nothing is left open.** Whatever fails on the way, all that the
command has opened is closed again when it returns, in the reverse order;
nothing is opened twice, used while it is not open, or closed that was not
opened last. -/
theorem resources_released (lib : Libraries) (args : List String)
    (answer : ℕ → (c : Call) → Answer c) :
    let trace := ((run lib args).recorded answer).2
    (progress trace).held = [] ∧
      ∀ pre e rest, trace = pre ++ e :: rest → Permitted (progress pre) e.1 := by
  obtain ⟨hended, hrule⟩ := ended_and_ruled lib args answer
  exact ⟨hended.held, fun pre e rest hsplit => (hrule pre e rest hsplit).1⟩

end Runs

/-! ## After the services -/

/-- Closing a resource gives up that resource. -/
theorem after_of_closes {p : Progress} {e : Event} {r : Resource} (h : e.1.closes = some r) :
    p.after e = { p with held := p.held.erase r } := by
  obtain ⟨c, a⟩ := e
  cases c <;> cases h <;> rfl

/-- The call that closes it, and its answer. -/
def Resource.closing : Resource → Event
  | .file => ⟨.closeFile, ()⟩
  | .pool => ⟨.closePool, ()⟩
  | .client => ⟨.closeClient, ()⟩

theorem eq_closing {e : Event} {r : Resource} (h : e.1.closes = some r) : e = r.closing := by
  obtain ⟨c, a⟩ := e
  cases c <;> cases h <;> rfl

/-- What is left to do when the services have returned is to close what is
open. -/
theorem closing_of_returned {pre rest : List Event} {held : List Resource} {err : Option Err}
    (hp : progress pre = ⟨held, some err⟩) (hend : (progress (pre ++ rest)).held = [])
    (hpermitted : ∀ mid e rest', rest = mid ++ e :: rest' →
      Permitted (progress (pre ++ mid)) e.1) :
    rest = held.map Resource.closing := by
  induction rest generalizing pre held with
  | nil =>
    rw [List.append_nil, hp] at hend
    subst hend
    rfl
  | cons e rest ih =>
    have he := hpermitted [] e rest rfl
    rw [List.append_nil, hp] at he
    cases hcloses : e.1.closes with
    | none => cases he.last hcloses
    | some r =>
      obtain ⟨held, rfl⟩ := List.head?_eq_some_iff.1 (he.closes r hcloses)
      have hp' := progress_append hp e
      rw [after_of_closes hcloses, List.erase_cons_head] at hp'
      rw [List.append_cons] at hend
      have hrest := ih hp' hend fun mid e' rest' hsplit => by
        rw [List.append_assoc]
        exact hpermitted (e :: mid) e' rest' (by rw [hsplit, List.cons_append])
      rw [List.map_cons, ← eq_closing hcloses, ← hrest]

/-- What the services returned is known from their event. -/
theorem Progress.returned_after {p : Progress} {e : Event} {err : Option Err}
    (h : (p.after e).returned = some err) :
    p.returned = some err ∨ ∃ s, e = ⟨.runServices s, err⟩ := by
  unfold Progress.after at h
  split at h
  case h_7 s err' =>
    cases h
    exact Or.inr ⟨s, rfl⟩
  all_goals exact Or.inl h

theorem mem_of_returned {err : Option Err} (h : (progress past).returned = some err) :
    ∃ s, ⟨.runServices s, err⟩ ∈ past := by
  induction past using List.reverseRecOn with
  | nil => cases h
  | append_singleton past e ih =>
    rw [progress_append rfl] at h
    rcases Progress.returned_after h with hbefore | ⟨s, rfl⟩
    · obtain ⟨s, hs⟩ := ih hbefore
      exact ⟨s, List.mem_append_left _ hs⟩
    · exact ⟨s, by simp⟩

/-- **The services are started on what has been checked.** They are started
at most once, and then with a configuration that was read from the file of
the command line and is valid, on a database that has answered and on a
node of the configured chain. The syncer they are given is one that `Run`
accepts. When they have returned, the client and the pool are closed and
their error is the command's; and the command ends without an error only
then, or if it was asked for help. -/
theorem services_checked (lib : Libraries) (args : List String)
    (answer : ℕ → (c : Call) → Answer c) :
    let result := (run lib args).recorded answer
    (∀ pre s err rest, result.2 = pre ++ ⟨.runServices s, err⟩ :: rest →
      (∃ cfg, Checked lib args pre cfg ∧ s = cfg.services) ∧
      s.runner.validateRunConfig = .ok () ∧ s.runner.fetcher = some { chainID := some 1 } ∧
      rest = [⟨.closeClient, ()⟩, ⟨.closePool, ()⟩] ∧ result.1 = succeed err) ∧
    (result.1 = .ok () → (∃ path, ⟨.parseFlags path args, .help⟩ ∈ result.2) ∨
      ∃ s, ⟨.runServices s, none⟩ ∈ result.2) := by
  intro result
  obtain ⟨hended, hrule⟩ : Ended args result.1 result.2 ∧ _ := ended_and_ruled lib args answer
  constructor
  · intro pre s err rest hsplit
    obtain ⟨hpermitted, hchecked⟩ := hrule pre _ rest hsplit
    obtain ⟨hheld, cfg, hcfg, rfl⟩ := hchecked s rfl
    have hp : progress (pre ++ [⟨.runServices cfg.services, err⟩]) =
        ⟨[.client, .pool], some err⟩ := by
      rw [progress_append rfl, ← hheld]
      rfl
    rw [List.append_cons] at hsplit
    have hrest : rest = [Resource.client, .pool].map Resource.closing := by
      refine closing_of_returned hp ?_ fun mid e rest' hmid => ?_
      · rw [← hsplit]
        exact hended.held
      · rw [hmid, ← List.append_assoc] at hsplit
        exact (hrule _ e rest' hsplit).1
    refine ⟨⟨cfg, hcfg, rfl⟩, hcfg.configured.valid.validateRunConfig,
      hcfg.configured.valid.fetcher, hrest, hended.eq_succeed ?_⟩
    rw [hsplit, hrest, List.map_cons, List.map_cons, List.map_nil, List.append_cons]
    exact congrArg Progress.returned (progress_append (progress_append hp _) _)
  · intro hok
    rcases hended with hfinished | ⟨-, -, hhelp⟩
    · refine Or.inr ?_
      have houtcome := hfinished.outcome
      rw [hok] at houtcome
      cases hreturned : (progress result.2).returned with
      | none =>
        rw [hreturned] at houtcome
        obtain ⟨e, he⟩ := houtcome
        cases he
      | some err =>
        rw [hreturned] at houtcome
        obtain rfl := eq_none_of_succeed houtcome.symm
        exact mem_of_returned hreturned
    · exact Or.inl hhelp

/-! ## When the services are started

No call is made twice, so it is enough to know how each is answered. -/

/-- **Everything is as it should be.** -/
structure Favourable (lib : Libraries) (args : List String) (answer : (c : Call) → Answer c)
    (cfg : Config) : Prop where
  source : ∃ path file,
    answer (.parseFlags (configPath (answer (.getenv "CONFIG_FILE"))) args) = .parsed path [] ∧
    answer (.openFile path) = none ∧ answer (.decode .default) = .ok file ∧
    answer .decodeExtra = .eof ∧
    cfg = file.override (answer (.getenv "ETH_RPC_URL")) (answer (.getenv "DATABASE_URL"))
      (answer (.getenv "LOG_LEVEL"))
  valid : cfg.Valid lib
  logger : newLogger lib cfg.app.logLevel = .ok ()
  parsed : answer (.parseConfig cfg.database.url) = none
  pool : answer (.newPool cfg.postgresOptions) = none
  pinged : answer (.ping cfg.database.connectTimeout) = none
  dialled : answer (.dialContext cfg.ethereum.rpcURL cfg.ethereum.rpcTimeout) = none
  chainID : answer (.chainID cfg.ethereum.rpcTimeout) = .ok (some 1)

section Fixed

variable {answer : (c : Call) → Answer c}

/-- What is known of calls is what they are answered. -/
theorem Checked.favourable (h : Checked lib args past cfg)
    (hpast : ∀ e ∈ past, e.2 = answer e.1) : Favourable lib args answer cfg := by
  obtain ⟨env, path, henv, hflags, hfile⟩ := h.configured.flags
  obtain ⟨file, rpcURL, databaseURL, logLevel, hdecode, hrpc, hdatabase, hlevel, hcfg⟩ :=
    hfile.decoded
  refine ⟨⟨path, file, ?_, (hpast _ hfile.opened).symm, (hpast _ hdecode).symm,
    (hpast _ hfile.extra).symm, ?_⟩, h.configured.valid, h.configured.logger,
    (hpast _ h.connected.parsed).symm, (hpast _ h.connected.pool).symm,
    (hpast _ h.connected.pinged).symm, (hpast _ h.dialled).symm, (hpast _ h.chainID).symm⟩
  · rw [← hpast _ henv, ← hpast _ hflags]
  · rw [← hpast _ hrpc, ← hpast _ hdatabase, ← hpast _ hlevel]
    exact hcfg

variable (t : List Event)

/-- Loading succeeds where every step does. -/
theorem run_load {path : String} {file : Config} (hopened : answer (.openFile path) = none)
    (hdecoded : answer (.decode .default) = .ok file) (hextra : answer .decodeExtra = .eof)
    (hcfg : cfg = file.override (answer (.getenv "ETH_RPC_URL")) (answer (.getenv "DATABASE_URL"))
      (answer (.getenv "LOG_LEVEL"))) (hvalid : cfg.Valid lib) :
    ∃ t', (load lib path).run (Session.record fun _ => answer) t = (.ok cfg, t') := by
  have hvalidate := Config.validate_eq_none_iff.2 hvalid
  subst hcfg
  simp [load, decodeFile, applyEnvironment, Session.defer, Session.run_bind, Session.run_attempt,
    Session.record, hopened, hdecoded, hextra, hvalidate, succeed_none, mapError_ok]

/-- The part of the command after the dial, with the trace it leaves. -/
theorem Favourable.run_serve (h : Favourable lib args answer cfg) :
    ∃ t', (serve cfg).run (Session.record fun _ => answer) t =
      (succeed (answer (.runServices cfg.services)), t') ∧
      ⟨.runServices cfg.services, answer (.runServices cfg.services)⟩ ∈ t' := by
  have hchain : asUint64 (some 1) = some cfg.ethereum.chainID := by
    rw [h.valid.ethereum.chainID]
    rfl
  simp [serve, validateChainID, failIf, Session.run_bind, Session.run_mapError, Session.record,
    h.chainID, hchain, mapError_ok]

/-- Connecting succeeds where every call does. -/
theorem Favourable.run_connect (h : Favourable lib args answer cfg) :
    ∃ t', (connect cfg).run (Session.record fun _ => answer) t =
      (succeed (answer (.runServices cfg.services)), t') ∧
      ⟨.runServices cfg.services, answer (.runServices cfg.services)⟩ ∈ t' := by
  have hurl := h.valid.ethereum.rpcURL.1
  have htimeout := Int64.not_le.2 h.valid.ethereum.rpcTimeout
  obtain ⟨t', hrun, hmem⟩ := h.run_serve (t ++
    [⟨.dialContext cfg.ethereum.rpcURL cfg.ethereum.rpcTimeout, none⟩])
  simp [connect, dial, failIf, Session.defer, Session.run_bind, Session.run_mapError,
    Session.run_attempt, Session.record, hurl, htimeout, h.dialled, succeed_none, mapError_ok, hrun,
    hmem]

theorem Favourable.run_start (h : Favourable lib args answer cfg) :
    ∃ t', (start lib cfg).run (Session.record fun _ => answer) t =
      (succeed (answer (.runServices cfg.services)), t') ∧
      ⟨.runServices cfg.services, answer (.runServices cfg.services)⟩ ∈ t' := by
  obtain ⟨t', hrun, hmem⟩ := h.run_connect (t ++ [⟨.parseConfig cfg.postgresOptions.url, none⟩,
    ⟨.newPool cfg.postgresOptions, none⟩, ⟨.ping cfg.postgresOptions.connectTimeout, none⟩])
  have hparsed : answer (.parseConfig cfg.postgresOptions.url) = none := h.parsed
  have hpinged : answer (.ping cfg.postgresOptions.connectTimeout) = none := h.pinged
  simp [start, openPostgres, Session.defer, Session.run_bind, Session.run_mapError,
    Session.run_attempt, Session.record, h.logger, hparsed, h.pool, hpinged, succeed_none,
    mapError_ok, hrun, hmem]

/-- **With favourable answers the services are run.** -/
theorem Favourable.run_run (h : Favourable lib args answer cfg) :
    ⟨.runServices cfg.services, answer (.runServices cfg.services)⟩ ∈
      ((run lib args).recorded fun _ => answer).2 := by
  obtain ⟨path, file, hflags, hopened, hdecoded, hextra, hcfg⟩ := h.source
  obtain ⟨t, hload⟩ := run_load
    [⟨.getenv "CONFIG_FILE", answer (.getenv "CONFIG_FILE")⟩,
      ⟨.parseFlags (configPath (answer (.getenv "CONFIG_FILE"))) args, .parsed path []⟩]
    hopened hdecoded hextra hcfg h.valid
  obtain ⟨t', hrun, hmem⟩ := h.run_start t
  simp [Session.recorded, run, configPathFromEnvironment, failIf, Session.run_bind,
    Session.run_mapError, Session.record, hflags, hload, mapError_ok, hrun, hmem]

end Fixed

/-- **When the services are started**: exactly if the arguments, the file,
the environment, the database and the node are all as they should be; and
they are those of the configuration. -/
theorem services_start_iff (lib : Libraries) (args : List String) (answer : (c : Call) → Answer c)
    (s : Services) :
    (∃ err, ⟨.runServices s, err⟩ ∈ ((run lib args).recorded fun _ => answer).2) ↔
      ∃ cfg, Favourable lib args answer cfg ∧ s = cfg.services := by
  constructor
  · rintro ⟨err, hmem⟩
    obtain ⟨pre, rest, hsplit⟩ := List.append_of_mem hmem
    obtain ⟨-, hrule⟩ := ended_and_ruled lib args fun _ => answer
    obtain ⟨-, cfg, hchecked, hs⟩ := (hrule pre _ rest hsplit).2 s rfl
    refine ⟨cfg, hchecked.favourable fun e he => ?_, hs⟩
    have hanswered : Session.AnsweredFrom (fun _ => answer) 0 _ :=
      (Session.recorded_eq_iff.1 (rfl : (run lib args).recorded (fun _ => answer) = _)).2
    obtain ⟨i, hi⟩ := List.mem_iff_getElem?.1 (List.mem_append_left (⟨.runServices s, err⟩ :: rest) he)
    rw [← hsplit] at hi
    exact Session.answeredFrom_iff.1 hanswered i e hi
  · rintro ⟨cfg, h, rfl⟩
    exact ⟨_, h.run_run⟩

end Runtime

end EthIndexer
