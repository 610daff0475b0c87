import Mathlib.Data.List.Nodup
import GuardedIM.Mesh

/-!
# The users among the peers

`UpdateConnection` cuts the text of the local address behind its last dot and asks for the users
`WHERE latest_ip LIKE` what is left. The column holds any text that `net.ParseIP` accepts, so an
address of the subnet that is not written as an IPv4 address is not found.

* `IPNet.covers`: what an entry of `AllowedIPs` stands for; `covers_host`: an IPv4 address with
  the mask of a host stands for that address alone.
* `selected_by_subnet_iff`: a user's peer is there, once and for the right address, exactly if the
  address is in the subnet, unless the subnet has it in an IPv6 spelling.
-/

namespace GuardedIM

/-- `networkNumberAndMask` of package `net`; `none` for the pair of nils. -/
def networkNumberAndMask (n : IPNet) : Option IPNet :=
  match to4 n.ip with
  | some ip4 =>
    if n.mask.length = 4 then some ⟨ip4, n.mask⟩
    else if n.mask.length = 16 then some ⟨ip4, n.mask.drop 12⟩
    else none
  | none => if n.ip.length = 16 ∧ n.mask.length = 16 then some n else none

/-- `n.Contains(ip)`, whatever form `n` is given in. -/
def IPNet.covers (n : IPNet) (ip : Bytes) : Bool :=
  match networkNumberAndMask n with
  | some n => n.contains ip
  | none => ((to4 ip).getD ip).length = 0

namespace Control

/-- The text names this IPv4 address, in either notation. -/
def Denotes (text ip4 : Bytes) : Prop := ip4.length = 4 ∧ parseIP text = some (v4InV6Prefix ++ ip4)

/-- The address that the text names is in the /24 of the local one. -/
def InSubnet (ip : Bytes) (u : UserRow) : Prop :=
  ∃ ip4, Denotes u.latestIp ip4 ∧ ip4.take 3 = ip.take 3

/-- The peers with the key of a user. -/
def peersWithKey (peers : List PeerConfig) (u : UserRow) : List PeerConfig :=
  peers.filter fun p => p.presharedKey = none ∧ p.publicKey = u.userPubkey

/-- Users of the subnet have one peer, for their address alone, and other users have none. -/
def SelectedBySubnet (ip : Bytes) (peers : List PeerConfig) (u : UserRow) : Prop :=
  (InSubnet ip u → ∃ p n ip4, peersWithKey peers u = [p] ∧ p.allowedIPs = [n] ∧
    Denotes u.latestIp ip4 ∧ ∀ a, n.covers a = true ↔ to4 a = some ip4) ∧
  (¬ InSubnet ip u → peersWithKey peers u = [])

variable {W : WgTypes} {db : Database} {addrs : List Bytes} {peers : List PeerConfig} {u : UserRow}
  {ip ip4 text : Bytes}

theorem and_hostMask (h : ip.length = 4) : List.zipWith (· &&& ·) ip hostMask = ip := by
  obtain ⟨a, b, c, d, rfl⟩ := List.length_eq_four.mp h
  have hbyte : ∀ x : UInt8, x &&& 255 = x := fun x => UInt8.and_neg_one
  simp [hostMask, hbyte]

/-- A host is covered by itself alone. -/
theorem covers_host (h : ip4.length = 4) (a : Bytes) :
    (IPNet.mk (v4InV6Prefix ++ ip4) hostMask).covers a = true ↔ to4 a = some ip4 := by
  have hnet : networkNumberAndMask ⟨v4InV6Prefix ++ ip4, hostMask⟩ = some ⟨ip4, hostMask⟩ := by
    rw [networkNumberAndMask, to4_mapped h]
    rfl
  rw [IPNet.covers, hnet]
  simp only [IPNet.contains, Bool.and_eq_true, decide_eq_true_eq, and_hostMask h]
  rcases h4 : to4 a with _ | a4
  · -- an address that is not an IPv4 address has no 4 bytes
    refine iff_of_false ?_ (Option.some_ne_none _).symm
    rintro ⟨hlen, -⟩
    rw [Option.getD_none, h] at hlen
    rw [to4, if_pos hlen] at h4
    cases h4
  · rw [Option.getD_some, and_hostMask (length_to4 h4), Option.some.injEq]
    constructor
    · rintro ⟨-, heq⟩
      exact heq.symm
    · rintro rfl
      exact ⟨rfl, rfl⟩

/-! ## The pattern -/

/-- What stands before the last dot are the octets but one. -/
theorem upToLastDot_dotted (fields : Bytes) (b : UInt8) :
    upToLastDot (dotted (fields ++ [b])) =
      fields.flatMap fun b => decimal b.toNat ++ [dot] := by
  have hdigits : ∀ c ∈ (decimal b.toNat).reverse, decide (c ≠ dot) = true := by
    intro c hc
    have hdigit := digit_of_mem_decimal (List.mem_reverse.mp hc)
    refine decide_eq_true fun he => ?_
    rw [he] at hdigit
    exact absurd hdigit (by decide)
  have hstop : ∀ t : Bytes, upToLastDot (t ++ [dot]) = t ++ [dot] := by
    intro t
    rw [upToLastDot, List.rdropWhile_concat_neg _ _ _ (by simp)]
  have hcut : upToLastDot (dotted (fields ++ [b])) =
      upToLastDot (fields.flatMap fun b => decimal b.toNat ++ [dot]) := by
    rw [dotted_snoc, upToLastDot, upToLastDot, List.rdropWhile, List.reverse_append,
      List.dropWhile_append_of_pos hdigits, List.rdropWhile]
  rw [hcut]
  rcases List.eq_nil_or_concat fields with rfl | ⟨front, a, rfl⟩
  · rfl
  · rw [List.concat_eq_append, List.flatMap_append, List.flatMap_singleton, ← List.append_assoc,
      hstop]

/-- The octets that were read stay. -/
theorem parseIPv4Fields_keeps {s : Bytes} {prev : Option UInt8} {val digLen : ℕ} {fields : Bytes}
    (h : parseIPv4Fields prev val digLen fields s = some ip) : fields <+: ip := by
  induction s generalizing prev val digLen fields with
  | nil =>
    rw [parseIPv4Fields] at h
    split_ifs at h
    rw [← Option.some.inj h]
    exact List.prefix_append ..
  | cons c s ih =>
    rw [parseIPv4Fields] at h
    split_ifs at h
    · exact ih h
    · exact (List.prefix_append ..).trans (ih h)

/-- A dotted text that begins with three octets begins with those of its address. -/
theorem octets_of_prefix {fields : Bytes} (hfields : fields.length = 3) (h : ip4.length = 4)
    (hbegin : (fields.flatMap fun b => decimal b.toNat ++ [dot]) <+: dotted ip4) :
    ip4.take 3 = fields := by
  obtain ⟨rest, hrest⟩ := hbegin
  obtain ⟨a, b, c, rfl⟩ := List.length_eq_three.mp hfields
  have htext : dotted ip4 = decimal a.toNat ++ dot :: (decimal b.toNat ++ dot ::
      (decimal c.toNat ++ dot :: rest)) := by
    rw [← hrest]
    simp
  have hparse := parseIPv4_dotted h
  rw [parseIPv4, htext, parseIPv4Fields_octet _ (by simp) (by simp),
    parseIPv4Fields_octet _ (by simp) (by simp), List.nil_append, List.singleton_append] at hparse
  have hne : rest ≠ [] := by
    rintro rfl
    obtain ⟨d, digLen, hd, hread⟩ := parseIPv4Fields_decimal (Nat.le_of_lt_succ c.toNat_lt)
      (some dot) [a, b] [dot]
    rw [hread, parseIPv4Fields, if_neg (by decide), if_pos rfl, if_pos (.inr (.inl rfl))] at hparse
    cases hparse
  rw [parseIPv4Fields_octet _ hne (by simp)] at hparse
  obtain ⟨last, hlast⟩ := parseIPv4Fields_keeps hparse
  rw [← hlast]
  rfl

/-- A pattern of digits and dots asks for the beginning of the text. -/
theorem like_upToLastDot (ip text : Bytes) :
    like (upToLastDot (dotted ip) ++ [percent]) text = true ↔ upToLastDot (dotted ip) <+: text := by
  have hplain : ∀ c ∈ upToLastDot (dotted ip), c ≠ percent ∧ c ≠ 95 :=
    fun c hc => dotted_plain ((upToLastDot_begins _).subset hc)
  exact ⟨like_begins hplain, like_self hplain⟩

/-- **What the query finds**: the users of the subnet whose address is an IPv4 text. -/
theorem like_iff (hu : u.Valid) (hip : ip.length = 4) :
    like (upToLastDot (dotted ip) ++ [percent]) u.latestIp = true ↔
      InSubnet ip u ∧ (parseIPv4 u.latestIp).isSome := by
  obtain ⟨fields, b, rfl⟩ : ∃ fields b, ip = fields ++ [b] := by
    obtain ⟨w, x, y, z, rfl⟩ := List.length_eq_four.mp hip
    exact ⟨[w, x, y], z, rfl⟩
  have hfields : fields.length = 3 := by
    simpa using hip
  have htake : (fields ++ [b]).take 3 = fields := by
    rw [← hfields, List.take_left]
  constructor
  · intro hlike
    obtain ⟨ip4, hlen, htext, hparse⟩ := selected_user hu hip hlike
    rw [like_upToLastDot, upToLastDot_dotted, htext] at hlike
    refine ⟨⟨ip4, ⟨hlen, hparse⟩, ?_⟩, ?_⟩
    · rw [htake]
      exact octets_of_prefix hfields hlen hlike
    · rw [htext, parseIPv4_dotted hlen]
      rfl
  · rintro ⟨⟨ip4, ⟨hlen, hparse⟩, hsubnet⟩, hdotted⟩
    obtain ⟨ip4', hip4'⟩ := Option.isSome_iff_exists.mp hdotted
    rw [parseIP_of_parseIPv4 hip4', Option.some.injEq, List.append_cancel_left_eq] at hparse
    subst hparse
    rw [like_upToLastDot, upToLastDot_dotted, (parseIPv4_eq hip4').1]
    obtain ⟨w, x, y, z, rfl⟩ := List.length_eq_four.mp hlen
    rw [htake] at hsubnet
    have hsplit : [w, x, y, z] = fields ++ [z] := by
      rw [← hsubnet]
      rfl
    rw [hsplit, dotted_snoc]
    exact List.prefix_append ..

/-! ## The peer of a user -/

theorem userPeer_eq (hu : u.Valid) : userPeer W u =
    some ⟨u.userPubkey, none, none, [⟨(parseIP u.latestIp).getD [], hostMask⟩]⟩ := by
  rw [userPeer, W.newKey_of_length hu.pubkey, Option.map_some]

/-- No peer of a relay counts: it has a preshared key. -/
theorem peersWithKey_servers (rows : List ServerRow) (u : UserRow) :
    peersWithKey (rows.filterMap (serverPeer W)) u = [] := by
  refine List.filter_eq_nil_iff.mpr fun p hp => ?_
  obtain ⟨s, -, hs⟩ := List.mem_filterMap.mp hp
  simp [(serverPeer_eq_some hs).1]

/-- The rows with the key of a user are copies of its own. -/
theorem peersWithKey_users (hvalid : ∀ u ∈ db.users.rows, u.Valid) (hu : u ∈ db.users.rows)
    {rows : List UserRow} (hrows : ∀ r ∈ rows, r ∈ db.users.rows) :
    peersWithKey (rows.filterMap (userPeer W)) u = List.replicate (rows.count u)
      ⟨u.userPubkey, none, none, [⟨(parseIP u.latestIp).getD [], hostMask⟩]⟩ := by
  induction rows with
  | nil => rfl
  | cons r rows ih =>
    obtain ⟨hr, hrest⟩ := List.forall_mem_cons.mp hrows
    rw [List.filterMap_cons_some (userPeer_eq (hvalid r hr)), peersWithKey]
    by_cases hsame : r.userPubkey = u.userPubkey
    · obtain rfl := db.users.eq_of_clash (fun _ _ => UserRow.Clash.symm) hr hu
        (.inr (.inr (.inl hsame)))
      rw [List.filter_cons_of_pos (by simp), List.count_cons_self, List.replicate_succ]
      exact congrArg (_ :: ·) (ih hrest)
    · have hne : r ≠ u := fun he => hsame (congrArg UserRow.userPubkey he)
      rw [List.filter_cons_of_neg (by simp [hsame]), List.count_cons_of_ne hne]
      exact ih hrest

/-- A user has one peer if the query finds it, and none otherwise. -/
theorem peersWithKey_eq (hvalid : ∀ u ∈ db.users.rows, u.Valid) (hu : u ∈ db.users.rows)
    (hwg : wgPrivip addrs = some text) (h : updateConnection W db addrs = .ok peers) :
    peersWithKey peers u =
      if like (upToLastDot text ++ [percent]) u.latestIp then
        [⟨u.userPubkey, none, none, [⟨(parseIP u.latestIp).getD [], hostMask⟩]⟩]
      else [] := by
  rw [updateConnection, hwg] at h
  obtain rfl := Except.ok.inj h
  have hnodup : db.users.rows.Nodup :=
    db.users.unique.imp fun hclash he => hclash (.inl (congrArg UserRow.userID he))
  rw [peersWithKey, List.filter_append, ← peersWithKey, ← peersWithKey, peersWithKey_servers,
    List.nil_append, peersWithKey_users hvalid hu fun r hr => (List.mem_filter.mp hr).1]
  split_ifs with hlike
  · have hmem : u ∈ db.users.rows.filter fun row =>
        like (upToLastDot text ++ [percent]) row.latestIp := List.mem_filter.mpr ⟨hu, hlike⟩
    rw [List.count_eq_one_of_mem (hnodup.filter _) hmem]
    rfl
  · have hnot : u ∉ db.users.rows.filter fun row =>
        like (upToLastDot text ++ [percent]) row.latestIp :=
      fun hmem => hlike (List.mem_filter.mp hmem).2
    rw [List.count_eq_zero.mpr hnot]
    rfl

/-- **Users by subnet**: a user is served as the /24 of the local address says exactly if an
address in it is written as an IPv4 text. -/
theorem selected_by_subnet_iff (hvalid : ∀ u ∈ db.users.rows, u.Valid) (hip : ip.length = 4)
    (hwg : wgPrivip addrs = some (dotted ip)) (h : updateConnection W db addrs = .ok peers)
    (hu : u ∈ db.users.rows) :
    SelectedBySubnet ip peers u ↔ (InSubnet ip u → (parseIPv4 u.latestIp).isSome) := by
  have hpeers := peersWithKey_eq hvalid hu hwg h
  have hlike := like_iff (hvalid u hu) hip
  rw [SelectedBySubnet, hpeers]
  by_cases hfound : like (upToLastDot (dotted ip) ++ [percent]) u.latestIp = true
  · obtain ⟨hsubnet, hdotted⟩ := hlike.mp hfound
    refine iff_of_true ⟨fun _ => ?_, fun hnot => absurd hsubnet hnot⟩ fun _ => hdotted
    obtain ⟨ip4, hdenotes, -⟩ := hsubnet
    refine ⟨_, _, ip4, if_pos hfound, rfl, hdenotes, fun a => ?_⟩
    rw [hdenotes.2, Option.getD_some]
    exact covers_host hdenotes.1 a
  · rw [if_neg hfound]
    constructor
    · rintro ⟨hserved, -⟩ hsubnet
      obtain ⟨p, n, ip4, hone, -⟩ := hserved hsubnet
      exact absurd hone (List.cons_ne_nil p []).symm
    · intro hdotted
      have hnot : ¬ InSubnet ip u := fun hsubnet => hfound (hlike.mpr ⟨hsubnet, hdotted hsubnet⟩)
      exact ⟨fun hsubnet => absurd hsubnet hnot, fun _ => rfl⟩

/-- A table with one user. -/
def oneUser (latestIp : Bytes) : Database :=
  ⟨.empty, ⟨[⟨1, ascii "alice", ascii "Alice", List.replicate 32 1, latestIp⟩],
    List.pairwise_singleton _ _⟩⟩

theorem oneUser_valid {latestIp : Bytes} (h : (parseIP latestIp).isSome) :
    ∀ u ∈ (oneUser latestIp).users.rows, u.Valid := by
  intro u hu
  obtain rfl := List.mem_singleton.mp hu
  exact ⟨h, rfl⟩

/-- Alice at 10.0.0.5, seen from 10.0.0.2. -/
theorem selected_by_subnet_alice : ∃ peers u,
    updateConnection demoWgTypes (oneUser (ascii "10.0.0.5")) demoAddrs = .ok peers ∧
      u ∈ (oneUser (ascii "10.0.0.5")).users.rows ∧ SelectedBySubnet [10, 0, 0, 2] peers u := by
  obtain ⟨peers, hpeers⟩ : ∃ peers,
    updateConnection demoWgTypes (oneUser (ascii "10.0.0.5")) demoAddrs = .ok peers := ⟨_, rfl⟩
  refine ⟨peers, _, hpeers, List.mem_singleton_self _, ?_⟩
  exact (selected_by_subnet_iff (oneUser_valid rfl) rfl (by decide) hpeers
    (List.mem_singleton_self _)).mpr fun _ => rfl

/-- Alice at the same address in an IPv6 spelling: she has no peer. -/
theorem mapped_not_selected : ¬ ∀ (W : WgTypes) (db : Database) (addrs : List Bytes) (ip : Bytes)
    (peers : List PeerConfig), (∀ u ∈ db.users.rows, u.Valid) → ip.length = 4 →
      wgPrivip addrs = some (dotted ip) → updateConnection W db addrs = .ok peers →
      ∀ u ∈ db.users.rows, SelectedBySubnet ip peers u := by
  intro hall
  obtain ⟨peers, hpeers⟩ : ∃ peers,
    updateConnection demoWgTypes (oneUser (ascii "::ffff:10.0.0.5")) demoAddrs = .ok peers :=
      ⟨_, rfl⟩
  have hparse : parseIP (ascii "::ffff:10.0.0.5") = some (v4InV6Prefix ++ [10, 0, 0, 5]) := by
    decide
  have hserved := hall _ _ demoAddrs [10, 0, 0, 2] peers (oneUser_valid (by rw [hparse]; rfl)) rfl
    (by decide) hpeers _ (List.mem_singleton_self _)
  obtain ⟨p, n, ip4, hone, -⟩ := hserved.1 ⟨[10, 0, 0, 5], ⟨rfl, hparse⟩, rfl⟩
  have hnone :
      updateConnection demoWgTypes (oneUser (ascii "::ffff:10.0.0.5")) demoAddrs = .ok [] := by
    decide
  obtain rfl := Except.ok.inj (hpeers.symm.trans hnone)
  cases hone

end Control

end GuardedIM
