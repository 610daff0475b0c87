import GuardedIM.DatabaseUrl
import GuardedIM.RelayAddress
import GuardedIM.Control
import GuardedIM.Strconv

/-!
# From the configuration to the daemon: `cmd/gdim` and `cmd/gdimd`

`gdim` reads a configuration file, hands the settings for one mode to systemd as environment
variables, and lets it restart `gdimd`, which reads the variables again. In between everything is
text, other `gdim` commands can run, commands can fail half way, and systemd restarts the daemon by
itself. The variables of earlier commands stay, those of the other mode too.

* `launch_settings`: what the daemon makes of the variables of one command, whatever was set before.
* `started_as_configured`: whenever the daemon starts, it starts with the settings of one command,
  the last one that got its settings through.
-/

namespace GuardedIM.Gdim

open Control Interleave Interleave.Program NetUrl

/-- `typedConfig`, without the field that nothing reads. -/
structure Config where
  /-- `operation_mode` -/
  operationMode : Bytes
  /-- `self_server_wireguard_ip` -/
  selfIP : Bytes
  /-- `self_server_wireguard_private_key` -/
  privateKey : Bytes
  /-- `self_server_wireguard_listen_port` -/
  listenPort : Int64
  /-- `self_server_wireguard_mtu` -/
  MTU : Int64
  /-- `self_client_wireguard_ip` -/
  clientIP : Bytes
  /-- `self_client_wireguard_private_key` -/
  clientKey : Bytes
  /-- `self_client_wireguard_mtu` -/
  clientMTU : Int64
  /-- `self_client_localdb` -/
  localDB : Bytes
  /-- `database_host` -/
  dbHost : Bytes
  /-- `database_port` -/
  dbPort : UInt16
  /-- `database_cert_directory` -/
  dbCertDir : Bytes
  /-- `database_dbname` -/
  dbName : Bytes
  /-- `database_username` -/
  dbUser : Bytes

/-- What the daemon runs as. -/
inductive Mode where
  /-- `server` -/
  | server
  /-- `client` -/
  | client

/-! ## Through the environment -/

/-- The environment that systemd gives to its services. -/
abbrev Environment := Dict Bytes Bytes

/-- `systemctl set-environment`, when it succeeds. Its manual says what each line is: an argument is
`VARIABLE=VALUE`, a variable that is set again takes the new value, and a variable stays until it is
set again or unset, which no command here does. -/
def setEnvironment (env : Environment) (args : List Bytes) : Environment :=
  args.foldl (fun env arg => Dict.set env (cut arg 61).1 (cut arg 61).2) env

/-- `os.Getenv` -/
def getenv (env : Environment) (name : Bytes) : Bytes := (Dict.get env name).getD []

/-- `CraftDBAccessURL` of the configured database. -/
def Config.dbAccessURL (cfg : Config) : Bytes :=
  craftDBAccessURL cfg.dbHost cfg.dbPort cfg.dbUser cfg.dbName cfg.dbCertDir

/-- The arguments of `systemctl set-environment` in `gdim startserver` and `gdim startclient`. -/
def Config.settings (cfg : Config) : Mode → List Bytes
  | .server =>
    [ascii "GDIM_DAEMON_OPMODE=" ++ ascii "server",
      ascii "GDIM_WG_PRIVKEY=" ++ cfg.privateKey,
      ascii "GDIM_DB_ACCESS_URL=" ++ cfg.dbAccessURL,
      ascii "GDIM_CERT_DIR=" ++ cfg.dbCertDir,
      ascii "GDIM_WG_PRIVIP=" ++ cfg.selfIP,
      ascii "GDIM_WG_PORT=" ++ itoa cfg.listenPort.toInt,
      ascii "GDIM_WG_MTU=" ++ itoa cfg.MTU.toInt]
  | .client =>
    let clientMTU := if cfg.clientMTU = 0 then cfg.MTU else cfg.clientMTU
    [ascii "GDIM_DAEMON_OPMODE=" ++ ascii "client",
      ascii "GDIM_WG_PRIVKEY=" ++ cfg.clientKey,
      ascii "GDIM_WG_PRIVIP=" ++ cfg.clientIP,
      ascii "GDIM_WG_MTU=" ++ itoa clientMTU.toInt,
      ascii "GDIM_CLIENT_LOCALDB_FILEPATH=" ++ cfg.localDB]

/-- What `gdimd` goes on with after it has read its environment. -/
inductive Launch where
  /-- `Invalid MTU`, exit 1 -/
  | invalidMTU
  /-- `Unsupported operation mode.`, exit 1 -/
  | unsupported
  /-- the arguments of `InitializeLocalDB` and `client.InitializeInterface` -/
  | client (localDB wgPrivip privkey : Bytes) (MTU : ℤ)
  /-- the arguments of `OpenDBWithURL`, `InitializeControlServ` and `server.InitializeInterface` -/
  | server (dbAccessURL certDir wgPrivip privkey wgPort : Bytes) (MTU : ℤ)

/-- The first part of `main` of `gdimd`. -/
def gdimd (env : Environment) : Launch :=
  let opmode := getenv env (ascii "GDIM_DAEMON_OPMODE")
  let privkey := getenv env (ascii "GDIM_WG_PRIVKEY")
  let dbAccessURL := getenv env (ascii "GDIM_DB_ACCESS_URL")
  let certDir := getenv env (ascii "GDIM_CERT_DIR")
  let wgPrivip := getenv env (ascii "GDIM_WG_PRIVIP")
  let wgPort := getenv env (ascii "GDIM_WG_PORT")
  let clientLocaldbPath := getenv env (ascii "GDIM_CLIENT_LOCALDB_FILEPATH")
  match atoi (getenv env (ascii "GDIM_WG_MTU")) with
  | none => .invalidMTU
  | some wgMTU =>
    if opmode = ascii "client" then .client clientLocaldbPath wgPrivip privkey wgMTU
    else if opmode = ascii "server" then
      .server dbAccessURL certDir wgPrivip privkey wgPort wgMTU
    else .unsupported

/-- What the configuration says for a mode. -/
def Config.launch (cfg : Config) : Mode → Launch
  | .server => .server cfg.dbAccessURL cfg.dbCertDir cfg.selfIP cfg.privateKey
      (itoa cfg.listenPort.toInt) cfg.MTU.toInt
  | .client => .client cfg.localDB cfg.clientIP cfg.clientKey
      (if cfg.clientMTU = 0 then cfg.MTU else cfg.clientMTU).toInt

theorem atoi_int64 (n : Int64) : atoi (itoa n.toInt) = some n.toInt :=
  atoi_itoa n.le_toInt n.toInt_lt

/-- **Whatever was set before**, the daemon reads what the last command wrote. -/
theorem launch_settings (env : Environment) (cfg : Config) (mode : Mode) :
    gdimd (setEnvironment env (cfg.settings mode)) = cfg.launch mode := by
  -- a value may have `=` in it, but the cut is at the first one
  cases mode with
  | server =>
    have hset : setEnvironment env (cfg.settings .server) =
        Dict.set (Dict.set (Dict.set (Dict.set (Dict.set (Dict.set (Dict.set env
          (ascii "GDIM_DAEMON_OPMODE") (ascii "server"))
          (ascii "GDIM_WG_PRIVKEY") cfg.privateKey)
          (ascii "GDIM_DB_ACCESS_URL") cfg.dbAccessURL)
          (ascii "GDIM_CERT_DIR") cfg.dbCertDir)
          (ascii "GDIM_WG_PRIVIP") cfg.selfIP)
          (ascii "GDIM_WG_PORT") (itoa cfg.listenPort.toInt))
          (ascii "GDIM_WG_MTU") (itoa cfg.MTU.toInt) := rfl
    rw [hset]
    simp +decide only [gdimd, getenv, Dict.get_set, atoi_int64, Option.getD_some, Config.launch,
      if_true, if_false]
  | client =>
    have hset : setEnvironment env (cfg.settings .client) =
        Dict.set (Dict.set (Dict.set (Dict.set (Dict.set env
          (ascii "GDIM_DAEMON_OPMODE") (ascii "client"))
          (ascii "GDIM_WG_PRIVKEY") cfg.clientKey)
          (ascii "GDIM_WG_PRIVIP") cfg.clientIP)
          (ascii "GDIM_WG_MTU")
            (itoa (if cfg.clientMTU = 0 then cfg.MTU else cfg.clientMTU).toInt))
          (ascii "GDIM_CLIENT_LOCALDB_FILEPATH") cfg.localDB := rfl
    rw [hset]
    simp +decide only [gdimd, getenv, Dict.get_set, atoi_int64, Option.getD_some, Config.launch,
      if_true, if_false]

/-! ## What the daemon sets up -/

/-- The private key: the configured one, or the one that `wgtypes.GeneratePrivateKey` returns. -/
def wireguardKey (W : WgTypes) (generated : Option Bytes) (wgPrivkey : Bytes) : Option Bytes :=
  if wgPrivkey ≠ [] then W.parseKey wgPrivkey else generated

/-- `createWG0`: what it hands to `IpcSet`. An error of a library has no text here. -/
def createWG0 (W : WgTypes) (generated : Option Bytes) (wgPrivkey serverPort : Bytes) :
    Except (Option String) Bytes :=
  match atoi serverPort with
  | none => .error (some "port out of range")
  | some port =>
    if port < 0 ∨ 65535 < port then .error (some "port out of range")
    else
      match wireguardKey W generated wgPrivkey with
      | none => .error none
      | some key =>
        .ok (ascii "private_key=" ++ hexEncode key ++ ascii "\nlisten_port=" ++ serverPort)

/-- `createWG0Client` -/
def createWG0Client (W : WgTypes) (generated : Option Bytes) (wgPrivkey : Bytes) :
    Except (Option String) Bytes :=
  match wireguardKey W generated wgPrivkey with
  | none => .error none
  | some key => .ok (ascii "private_key=" ++ hexEncode key ++ ascii "\n")

/-- The address of the interface of a client. -/
def clientAddress (clientIP : Bytes) : Option IPNet :=
  (parseIP clientIP).map fun ip =>
    match to4 ip with
    | some v4 => ⟨v4, hostMask⟩
    | none => ⟨(to16 ip).getD [], List.replicate 16 255⟩

/-- What `setupWG0LinuxClient` configures: the address of the interface and its MTU. -/
def setupWG0LinuxClient (clientIP : Bytes) (MTU : ℤ) : Except String (IPNet × ℤ) :=
  match clientAddress clientIP with
  | none => .error "invalid client IP"
  | some ipNet =>
    let MTU := if MTU = 0 then 1500 else MTU
    if MTU < 800 ∨ 1700 < MTU then .error "MTU out of reasonable range" else .ok (ipNet, MTU)

/-- The interface `wg0`, before it has peers. -/
structure Device where
  /-- what `IpcSet` got -/
  ipc : Bytes
  /-- the address -/
  ipNet : IPNet
  /-- the MTU -/
  MTU : ℤ

/-- The interface that `InitializeInterface` creates, when the libraries and the system let it. -/
def Launch.device (W : WgTypes) (generated : Option Bytes) : Launch → Except (Option String) Device
  | .invalidMTU => .error (some "Invalid MTU")
  | .unsupported => .error (some "Unsupported operation mode.")
  | .client _ wgPrivip privkey MTU =>
    match createWG0Client W generated privkey, setupWG0LinuxClient wgPrivip MTU with
    | .error e, _ => .error e
    | .ok _, .error e => .error (some e)
    | .ok ipc, .ok (ipNet, MTU) => .ok ⟨ipc, ipNet, MTU⟩
  | .server _ _ wgPrivip privkey wgPort MTU =>
    match createWG0 W generated privkey wgPort, setupWG0Linux wgPrivip MTU with
    | .error e, _ => .error e
    | .ok _, .error e => .error (some e)
    | .ok ipc, .ok (ipNet, MTU) => .ok ⟨ipc, ipNet, MTU⟩

/-- An MTU that both sides take; 0 stands for 1500. -/
def TakesMTU (configured MTU : ℤ) : Prop :=
  (configured = 0 ∧ MTU = 1500) ∨ (configured ≠ 0 ∧ MTU = configured ∧ 800 ≤ MTU ∧ MTU ≤ 1700)

/-- What an interface has to do with the configuration file. -/
def Config.Describes (W : WgTypes) (cfg : Config) (generated : Option Bytes) (d : Device) :
    Mode → Prop
  | .server => ∃ key port, wireguardKey W generated cfg.privateKey = some key ∧
      cfg.listenPort.toInt = (port : ℕ) ∧ port ≤ 65535 ∧
      d.ipc = ascii "private_key=" ++ hexEncode key ++ ascii "\nlisten_port=" ++ decimal port ∧
      interfaceAddress cfg.selfIP = .ok d.ipNet ∧ TakesMTU cfg.MTU.toInt d.MTU
  | .client => ∃ key, wireguardKey W generated cfg.clientKey = some key ∧
      d.ipc = ascii "private_key=" ++ hexEncode key ++ ascii "\n" ∧
      clientAddress cfg.clientIP = some d.ipNet ∧
      TakesMTU (if cfg.clientMTU = 0 then cfg.MTU else cfg.clientMTU).toInt d.MTU

variable {W : WgTypes}

theorem takesMTU_iff {configured MTU : ℤ} : TakesMTU configured MTU ↔
    MTU = (if configured = 0 then 1500 else configured) ∧ 800 ≤ MTU ∧ MTU ≤ 1700 := by
  rw [TakesMTU]
  split_ifs <;> omega

/-- The check of the MTU is made twice, for the server and for the client. -/
theorem checkMTU_iff {refused : Prop} [Decidable refused] {chosen MTU : ℤ} {addr ipNet : IPNet}
    {e : String} (hrefused : refused ↔ ¬ (800 ≤ chosen ∧ chosen ≤ 1700)) :
    (if refused then Except.error e else .ok (addr, chosen)) = .ok (ipNet, MTU) ↔
      addr = ipNet ∧ MTU = chosen ∧ 800 ≤ MTU ∧ MTU ≤ 1700 := by
  split_ifs with h
  · have hrange := hrefused.mp h
    simp only [false_iff, not_and]
    omega
  · have hrange := not_not.mp fun hn => h (hrefused.mpr hn)
    simp only [Except.ok.injEq, Prod.mk.injEq]
    refine and_congr_right fun _ => ⟨?_, fun h => h.1.symm⟩
    rintro rfl
    exact ⟨rfl, hrange⟩

theorem setupWG0Linux_iff {privip : Bytes} {configured MTU : ℤ} {ipNet : IPNet} :
    setupWG0Linux privip configured = .ok (ipNet, MTU) ↔
      interfaceAddress privip = .ok ipNet ∧ TakesMTU configured MTU := by
  rw [setupWG0Linux, takesMTU_iff]
  rcases interfaceAddress privip with e | addr
  · simp
  · rw [Except.ok.injEq]
    exact checkMTU_iff (by omega)

theorem setupWG0LinuxClient_iff {clientIP : Bytes} {configured MTU : ℤ} {ipNet : IPNet} :
    setupWG0LinuxClient clientIP configured = .ok (ipNet, MTU) ↔
      clientAddress clientIP = some ipNet ∧ TakesMTU configured MTU := by
  rw [setupWG0LinuxClient, takesMTU_iff]
  rcases clientAddress clientIP with _ | addr
  · simp
  · rw [Option.some.injEq]
    exact checkMTU_iff (by omega)

/-- A port is written as it is checked. -/
theorem createWG0_iff {generated : Option Bytes} {privkey ipc : Bytes} (n : Int64) :
    createWG0 W generated privkey (itoa n.toInt) = .ok ipc ↔ ∃ key port,
      wireguardKey W generated privkey = some key ∧ n.toInt = (port : ℕ) ∧ port ≤ 65535 ∧
      ipc = ascii "private_key=" ++ hexEncode key ++ ascii "\nlisten_port=" ++ decimal port := by
  rw [createWG0, atoi_int64]
  dsimp only
  split_ifs with hrange
  · rw [false_iff]
    rintro ⟨key, port, -, hport, hle, -⟩
    omega
  · obtain ⟨port, hport⟩ := Int.eq_ofNat_of_zero_le (show 0 ≤ n.toInt by omega)
    rw [hport, itoa_nonneg]
    rcases wireguardKey W generated privkey with _ | key
    · simp
    · simp only [Except.ok.injEq, Option.some.injEq]
      refine ⟨fun h => ⟨key, port, rfl, rfl, by omega, h.symm⟩, ?_⟩
      rintro ⟨key', port', rfl, hport', -, rfl⟩
      rw [Int.ofNat_inj.mp hport']

theorem createWG0Client_iff {generated : Option Bytes} {privkey ipc : Bytes} :
    createWG0Client W generated privkey = .ok ipc ↔ ∃ key,
      wireguardKey W generated privkey = some key ∧
      ipc = ascii "private_key=" ++ hexEncode key ++ ascii "\n" := by
  rw [createWG0Client]
  rcases wireguardKey W generated privkey with _ | key
  · simp
  · simp [eq_comm]

/-- **The interface comes up exactly as the configuration describes it.** -/
theorem device_iff (cfg : Config) (mode : Mode) (generated : Option Bytes) (d : Device) :
    (cfg.launch mode).device W generated = .ok d ↔ cfg.Describes W generated d mode := by
  obtain ⟨ipc, ipNet, MTU⟩ := d
  cases mode with
  | server =>
    have hboth : (cfg.launch .server).device W generated = .ok ⟨ipc, ipNet, MTU⟩ ↔
        createWG0 W generated cfg.privateKey (itoa cfg.listenPort.toInt) = .ok ipc ∧
          setupWG0Linux cfg.selfIP cfg.MTU.toInt = .ok (ipNet, MTU) := by
      rw [Config.launch, Launch.device]
      split <;> simp_all
    rw [hboth, createWG0_iff, setupWG0Linux_iff, Config.Describes]
    constructor
    · rintro ⟨⟨key, port, hkey, hport, hle, hipc⟩, hsetup⟩
      exact ⟨key, port, hkey, hport, hle, hipc, hsetup⟩
    · rintro ⟨key, port, hkey, hport, hle, hipc, hsetup⟩
      exact ⟨⟨key, port, hkey, hport, hle, hipc⟩, hsetup⟩
  | client =>
    have hboth : (cfg.launch .client).device W generated = .ok ⟨ipc, ipNet, MTU⟩ ↔
        createWG0Client W generated cfg.clientKey = .ok ipc ∧ setupWG0LinuxClient cfg.clientIP
          (if cfg.clientMTU = 0 then cfg.MTU else cfg.clientMTU).toInt = .ok (ipNet, MTU) := by
      rw [Config.launch, Launch.device]
      split <;> simp_all
    rw [hboth, createWG0Client_iff, setupWG0LinuxClient_iff, Config.Describes]
    constructor
    · rintro ⟨⟨key, hkey, hipc⟩, hsetup⟩
      exact ⟨key, hkey, hipc, hsetup⟩
    · rintro ⟨key, hkey, hipc, hsetup⟩
      exact ⟨⟨key, hkey, hipc⟩, hsetup⟩

/-! ## Commands that run side by side -/

/-- Where a `gdim` command is. -/
inductive Task where
  /-- before `loadConfig` -/
  | idle
  /-- before `server.OpenDB` -/
  | opening (cfg : Config) (command : Bytes)
  /-- before `systemctl set-environment` -/
  | setting (mode : Mode) (cfg : Config)
  /-- `fs.Parse` and the unit file -/
  | installing
  /-- before `systemctl restart gdimd` -/
  | restarting
  /-- in a command that starts nothing -/
  | working (command : Bytes)
  /-- the command has ended -/
  | exited (code : ℕ)

/-- What comes from outside the program during one step. -/
inductive Input where
  /-- somebody runs `gdim`: what `json.Unmarshal` made of the configuration file, if anything, and
  the first argument -/
  | invoke (config : Option Config) (command : Option Bytes)
  /-- whether the operation of this step succeeded -/
  | answer (ok : Bool)
  /-- the flags of the command are wrong -/
  | badFlags
  /-- systemd starts the daemon by itself -/
  | restart

/-- What a step reports. -/
inductive Event where
  /-- systemd has taken the settings of a command -/
  | configured (mode : Mode) (cfg : Config)
  /-- the daemon starts and has read its environment -/
  | launched (l : Launch)

/-- The commands that print what went wrong and exit with 0. -/
def addCommands : List Bytes := [ascii "adduser", ascii "addserver"]

/-- The other commands of a server that start nothing. -/
def otherCommands : List Bytes :=
  [ascii "serverstatus", ascii "stopserver", ascii "updateconn"]

/-- One step of `main` of `gdim`, or of systemd. -/
def gdim (env : Environment) : Task → Input → Option (Environment × Task × List Event)
  | .idle, .restart => some (env, .idle, [.launched (gdimd env)])
  | .idle, .invoke none _ => some (env, .exited 1, [])
  | .idle, .invoke (some _) none => some (env, .exited 1, [])
  | .idle, .invoke (some cfg) (some command) =>
    if cfg.operationMode = ascii "server" then some (env, .opening cfg command, [])
    else if cfg.operationMode = ascii "client" ∧ command = ascii "startclient" then
      some (env, .setting .client cfg, [])
    else some (env, .exited 1, [])
  | .opening cfg command, .answer true =>
    if command = ascii "startserver" then some (env, .setting .server cfg, [])
    else if command ∈ addCommands ++ otherCommands then some (env, .working command, [])
    else some (env, .exited 1, [])
  | .opening _ _, .answer false => some (env, .exited 1, [])
  | .setting mode cfg, .answer true =>
    some (setEnvironment env (cfg.settings mode), .installing, [.configured mode cfg])
  | .setting _ _, .answer false => some (env, .exited 1, [])
  | .installing, .badFlags => some (env, .exited 2, [])
  | .installing, .answer ok => some (env, if ok then .restarting else .exited 0, [])
  | .restarting, .answer true => some (env, .exited 0, [.launched (gdimd env)])
  | .restarting, .answer false => some (env, .exited 0, [])
  | .working command, .badFlags =>
    if command ∈ addCommands then some (env, .exited 2, []) else none
  | .working command, .answer ok =>
    some (env, .exited (if ok ∨ command ∈ addCommands then 0 else 1), [])
  | _, _ => none

/-- Any number of commands, and systemd. -/
def host : Program ℕ Environment Task Input Event where
  memory := []
  start := .idle
  step := fun _ => gdim

/-- The last settings that systemd took. -/
def lastConfigured (log : List Event) : Option (Mode × Config) :=
  log.findSome? fun
    | .configured mode cfg => some (mode, cfg)
    | .launched _ => none

/-- What a daemon starts with that was configured so. -/
def launchOf : Option (Mode × Config) → Launch
  | none => .invalidMTU
  | some (mode, cfg) => cfg.launch mode

/-- A step leaves the settings alone, takes new ones, or starts the daemon. -/
theorem gdim_cases {env : Environment} {l : Task} {i : Input}
    {m : Environment × Task × List Event} (h : gdim env l i = some m) :
    (m.1 = env ∧ m.2.2 = []) ∨ (m.1 = env ∧ m.2.2 = [.launched (gdimd env)]) ∨
      ∃ mode cfg, m.1 = setEnvironment env (cfg.settings mode) ∧
        m.2.2 = [.configured mode cfg] := by
  unfold gdim at h
  split at h
  case h_1 | h_11 =>
    obtain rfl := Option.some.inj h
    exact .inr (.inl ⟨rfl, rfl⟩)
  case h_7 mode cfg =>
    obtain rfl := Option.some.inj h
    exact .inr (.inr ⟨mode, cfg, rfl, rfl⟩)
  case h_15 => cases h
  case h_4 | h_5 =>
    split_ifs at h
    all_goals
      obtain rfl := Option.some.inj h
      exact .inl ⟨rfl, rfl⟩
  case h_13 =>
    split_ifs at h
    obtain rfl := Option.some.inj h
    exact .inl ⟨rfl, rfl⟩
  all_goals
    obtain rfl := Option.some.inj h
    exact .inl ⟨rfl, rfl⟩

/-- **The environment is that of the last settings.** -/
theorem environment_reach {C : Interleave.Config ℕ Environment Task Event → ℕ × Input → Prop}
    {x : Interleave.Config ℕ Environment Task Event} (h : host.Reach C x) :
    gdimd x.memory = launchOf (lastConfigured x.log) ∧
      Justified (fun e past => ∀ l, e = .launched l → l = launchOf (lastConfigured past))
        x.log := by
  refine h.invariant (I := fun x => gdimd x.memory = launchOf (lastConfigured x.log) ∧
    Justified _ x.log) ⟨rfl, trivial⟩ ?_
  rintro z t i ⟨env, l, es⟩ - ⟨henv, hlog⟩ - hm
  rw [after_memory, after_log]
  rcases gdim_cases hm with ⟨rfl, rfl⟩ | ⟨rfl, rfl⟩ | ⟨mode, cfg, rfl, rfl⟩
  · exact ⟨henv, hlog⟩
  · refine ⟨henv, ?_, hlog⟩
    rintro l ⟨⟩
    exact henv
  · refine ⟨launch_settings z.memory cfg mode, ?_, hlog⟩
    rintro l ⟨⟩

variable {x : Interleave.Config ℕ Environment Task Event} {later past : List Event} {l : Launch}

/-- **The daemon runs with the settings of one command.** In every interleaving of `gdim` commands
and of restarts by systemd, whatever fails, a daemon that starts goes by the last configuration that
systemd took, in all its settings, and its interface, when the libraries and the system let it come
up, is the one that this configuration describes. When none was taken, it does not come up. -/
theorem started_as_configured (h : host.Reach Any x)
    (hlog : x.log = later ++ .launched l :: past) :
    l = launchOf (lastConfigured past) ∧
      (lastConfigured past = none → ∀ generated d, l.device W generated ≠ .ok d) ∧
      ∀ mode cfg, lastConfigured past = some (mode, cfg) →
        ∀ generated d, l.device W generated = .ok d ↔ cfg.Describes W generated d mode := by
  have hj := (environment_reach h).2
  rw [hlog] at hj
  obtain rfl := hj.at l rfl
  refine ⟨rfl, fun hnone generated d => ?_, fun mode cfg hsome generated d => ?_⟩
  · rw [hnone]
    rintro ⟨⟩
  · rw [hsome]
    exact device_iff cfg mode generated d

/-- Two configurations. -/
def demoConfig (operationMode : Bytes) (listenPort : Int64) : Config where
  operationMode := operationMode
  selfIP := ascii "10.0.0.1"
  privateKey := demoPubKey
  listenPort := listenPort
  MTU := 1420
  clientIP := ascii "10.0.0.5"
  clientKey := []
  clientMTU := 0
  localDB := ascii "client.db"
  dbHost := ascii "localhost"
  dbPort := 26257
  dbCertDir := ascii "certs"
  dbName := []
  dbUser := ascii "relay"

/-- The daemon has just started. -/
def isLaunched : List Event → Bool
  | .launched _ :: .configured .client _ :: .launched _ :: _ => true
  | _ => false

/-- A server is started, and a client after it, on the same machine. -/
theorem started_as_configured_twice : ∃ (x : Interleave.Config ℕ Environment Task Event)
    (later past : List Event) (l : Launch), x.log = later ++ .launched l :: past ∧
      l = launchOf (lastConfigured past) ∧
      ∀ mode cfg, lastConfigured past = some (mode, cfg) →
        ∀ generated d, l.device demoWgTypes generated = .ok d ↔
          cfg.Describes demoWgTypes generated d mode := by
  obtain ⟨x, hx, hp⟩ := exists_reach_of_exec (P := host)
    [(0, .invoke (some (demoConfig (ascii "server") 51820)) (some (ascii "startserver"))),
      (0, .answer true), (0, .answer true), (0, .answer true), (0, .answer true),
      (1, .invoke (some (demoConfig (ascii "client") 0)) (some (ascii "startclient"))),
      (1, .answer true), (1, .answer true), (1, .answer true)]
    (p := fun x => isLaunched x.log) (by decide +kernel)
  unfold isLaunched at hp
  split at hp
  · rename_i l cfg l' past hlog
    have hsplit : x.log = [] ++ .launched l :: .configured .client cfg :: .launched l' :: past :=
      hlog
    obtain ⟨hl, -, hdevice⟩ := started_as_configured hx hsplit
    exact ⟨x, [], _, l, hlog, hl, hdevice⟩
  · cases hp

end GuardedIM.Gdim
