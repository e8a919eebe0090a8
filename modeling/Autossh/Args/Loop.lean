import Autossh.Args.Copied
import Autossh.Args.Monitor

/-!
# The monitor loop

With a monitor port `wp` and no echo port, autossh connects to its own end of the forward `-L`
(`conn_remote`), ssh carries the connection to the other side and, through the forward `-R`, back
to the port `wp + 1` on which autossh listens (`conn_listen`).

`Network` is what the loop rests on outside the program: the addresses of hosts as the two sides of
the ssh connection see them, the ports that port texts name, and the loopback address, where
OpenSSH listens for both forwards (`tunnel`).

* `sees` : the second pass comes to a word that it takes for a `-M`; `forwards_of_build` : without
  `AUTOSSH_PORT`, the forwards are in `newav` exactly then;
* `connText` : the text of the port when `conn_remote` is given it.  `writep` points into the
  vector, and `strip_arg` moves the characters of an element that is copied; without such a copy it
  is the port that was given (`connText_eq_self`);
* `loop_closes_iff` : **when the loop closes.**
-/

namespace Autossh

namespace Args

open Getopt

/-! ### The forwards in `newav` -/

/-- Before any word that begins with `--`, there is one that begins with `-M`. -/
def sees : List CString → Bool
  | [] => false
  | a :: as => !dashDash a && (dashM a || sees as)

section pass

variable {m : Monitor} {es : List Elem}

theorem forward?_stopped (es : List Elem) :
    ∀ i ∈ rewriteLoop false m true false es, i.forward? = none := by
  induction es with
  | nil => exact List.forall_mem_nil _
  | cons e es ih =>
    unfold rewriteLoop
    rw [if_neg (by simp), if_neg (by simp), if_neg (by simp)]
    exact List.forall_mem_append.2 ⟨forward?_copy e, ih⟩

theorem forward?_of_not_sees (h : sees (es.map Elem.text) = false) :
    ∀ i ∈ rewriteLoop false m false false es, i.forward? = none := by
  induction es with
  | nil => exact List.forall_mem_nil _
  | cons e es ih =>
    rw [List.map_cons, sees] at h
    rw [rewriteLoop.eq_def]
    dsimp only
    by_cases hd : dashDash e.text = true
    · rw [if_pos ⟨hd, rfl⟩]
      exact forward?_stopped es
    · have hm : dashM e.text = false ∧ sees (es.map Elem.text) = false := by simpa [hd] using h
      rw [if_neg (by simp [hd]), if_neg (by simp), if_neg (by simp [hm.1])]
      exact List.forall_mem_append.2 ⟨forward?_copy e, ih hm.2⟩

theorem inserted_of_sees (hf : forwards m = monitorForwards m) (hw : m.wp ≠ 0)
    (h : sees (es.map Elem.text) = true) :
    Inserted (monitorForwards m) (rewriteLoop false m false false es) := by
  induction es with
  | nil => cases h
  | cons e es ih =>
    rw [List.map_cons, sees, Bool.and_eq_true, Bool.not_eq_true'] at h
    rw [rewriteLoop.eq_def]
    dsimp only
    rw [if_neg (by simp [h.1]), if_neg (by simp)]
    by_cases hm : dashM e.text = true
    · rw [if_pos ⟨rfl, hm⟩, if_pos ⟨hw, rfl⟩, hf]
      refine .of_append ?_
      split_ifs
      · cases es with
        | nil => exact List.forall_mem_nil _
        | cons x es => exact forward?_rewriteLoop fun hw => by simp [hw]
      · exact forward?_rewriteLoop fun hw => by simp [hw]
    · rw [if_neg (by simp [hm])]
      exact .append (forward?_copy e) (ih (by simpa [hm] using h.2))

end pass

theorem Inserted.filterMap {fs is : List Item} (h : Inserted fs is) :
    is.filterMap Item.forward? = fs.filterMap Item.forward? := by
  obtain ⟨before, after, rfl, hnone⟩ := h
  obtain ⟨hb, ha⟩ := List.forall_mem_append.1 hnone
  rw [List.filterMap_append, List.filterMap_append, List.filterMap_eq_nil_iff.2 hb,
    List.filterMap_eq_nil_iff.2 ha, List.nil_append, List.append_nil]

/-- The vector that the second pass goes through. -/
def passVector (v : Env) (argv : List CString) : List Elem :=
  vector v (getopt optionString argv).groups ((getopt optionString argv).rest.getD [])

section result

variable {v : Env} {argv : List CString} {b : Built}

/-- **The forwards in `newav`**, with a monitor port and no echo port. -/
theorem forwards_of_build (h : build v argv = .ok b) (hwp : b.monitor.wp ≠ 0)
    (hecho : b.monitor.echo = false) :
    b.newav.filterMap Item.forward? =
      if v.port.isSome = true ∨ sees ((passVector v argv).map Elem.text) = true then
        ["-L".toList, b.monitor.wmbuf, "-R".toList, b.monitor.rmbuf]
      else [] := by
  obtain ⟨rest, p, hrest, hops, hp, hm, hnew⟩ := build_ok h
  obtain ⟨-, hgs, hhead⟩ := getopt_spec argv hrest
  have hf := (monitorOf_ok hm).2 hwp
  have hpath : (addArg (.sshPath v.sshPath)).filterMap Item.forward? = [] :=
    filterMap_addArg_of_none rfl
  have htexts : (monitorForwards b.monitor).filterMap Item.forward? =
      ["-L".toList, b.monitor.wmbuf, "-R".toList, b.monitor.rmbuf] := by
    rw [monitorForwards, if_neg hwp, hecho]
    rfl
  rw [hnew, List.filterMap_append, hpath, List.nil_append, passVector, hrest, Option.getD_some]
  cases hv : v.port.isSome with
  | true =>
    rw [if_pos (.inl rfl), (inserted_env hgs hhead hops hf hwp hv).filterMap, htexts]
  | false =>
    by_cases hsees : sees ((vector v (getopt optionString argv).groups rest).map Elem.text) = true
    · rw [if_pos (.inr hsees), (inserted_of_sees hf hwp hsees).filterMap, htexts]
    · rw [if_neg (by simp [hsees])]
      exact List.filterMap_eq_nil_iff.2 (forward?_of_not_sees (Bool.not_eq_true _ ▸ hsees))

end result

/-! ### The text of the port -/

/-- The text at `writep` when the second pass is over; `value` is what it was before.  It is at the
end of the last element that belongs to the option `M`, unless it is the one of `AUTOSSH_PORT`. -/
def connText (v : Env) (value : CString) (es : List Elem) : CString :=
  match ((es.zip (copied false v.monitors (es.map Elem.text))).filter (·.1.monitor)).getLast? with
  | some (e, true) =>
    if v.port.isSome then value
    else (stripArg optionString 'f' e.text).drop (e.text.length - value.length)
  | _ => value

/-- The port that `conn_remote` is given. -/
def writeText (v : Env) (argv : List CString) : CString :=
  connText v (beforeColon ((writep v (getopt optionString argv).groups).getD []))
    (passVector v argv)

/-- If nothing that belongs to the option `M` is copied, it is the port that was given. -/
theorem connText_eq_self {v : Env} {es : List Elem}
    (h : ∀ e ∈ pick (copied false v.monitors (es.map Elem.text)) es, e.monitor = false)
    (value : CString) : connText v value es = value := by
  unfold connText
  split
  · next e hlast =>
    obtain ⟨hmem, hmon⟩ := List.mem_filter.1 (List.mem_of_getLast? hlast)
    have hfalse := h e (mem_pick_of_mem_zip hmem)
    rw [hfalse] at hmon
    cases hmon
  · rfl

/-! ### The loop -/

/-- The two ends of the ssh connection. -/
inductive Side
  | client
  | server
  deriving DecidableEq, Repr

/-- What the network gives: `resolve` is the address of a host as one side sees it, `service` the
port that a text names, which for a number in decimal is the number. -/
structure Network (Addr : Type) where
  loopback : Addr
  resolve : Side → CString → Option Addr
  service : CString → Option ℕ
  service_decimal : ∀ n : ℕ, n < 2 ^ 16 → service (CString.decimal n) = some n

/-- An address on one side. -/
structure Endpoint (Addr : Type) where
  side : Side
  addr : Addr
  port : ℕ
  deriving DecidableEq

namespace Network

variable {Addr : Type} (N : Network Addr)

/-- `conn_addr`: the address that `conn_remote` connects to and `conn_listen` listens on. -/
def connAddr (host port : CString) : Option (Endpoint Addr) := do
  let addr ← N.resolve .client host
  let n ← N.service port
  return ⟨.client, addr, n⟩

/-- A forward that listens on the loopback address of one side and connects from the other. -/
def tunnel [DecidableEq Addr] (listen connect : Side) (text : CString) (e : Endpoint Addr) :
    Option (Endpoint Addr) := do
  let f ← parseForward text
  if e = ⟨listen, N.loopback, f.port⟩ then
    (N.resolve connect f.host).map fun addr => ⟨connect, addr, f.hostPort⟩
  else none

/-- From the address that `conn_remote` connects to, the forwards that are put into `newav` lead to
the one on which `conn_listen` listens. -/
def Closes [DecidableEq Addr] (mhost writep : CString) (b : Built) : Prop :=
  ∃ l r s e, b.newav.filterMap Item.forward? = ["-L".toList, l, "-R".toList, r] ∧
    N.connAddr mhost writep = some s ∧
    (N.tunnel .client .server l s).bind (N.tunnel .server .client r) = some e ∧
    N.connAddr mhost (CString.decimal (b.monitor.wp + 1)) = some e

/-- The four places fit together. -/
structure Fits (mhost writep : CString) (wp : ℤ) : Prop where
  client : N.resolve .client mhost = some N.loopback
  server : N.resolve .server mhost = some N.loopback
  colon : ':' ∉ mhost
  service : N.service writep = some wp.toNat
  wmbuf : (forwardText wp mhost wp).length ≤ 255
  rmbuf : (forwardText wp mhost (wp + 1)).length ≤ 255

variable {N}

theorem connAddr_eq_some {host port : CString} {e : Endpoint Addr} :
    N.connAddr host port = some e ↔
      ∃ addr n, N.resolve .client host = some addr ∧ N.service port = some n ∧
        e = ⟨.client, addr, n⟩ := by
  constructor
  · intro h
    obtain ⟨addr, haddr, h⟩ := Option.bind_eq_some_iff.1 h
    obtain ⟨n, hn, h⟩ := Option.bind_eq_some_iff.1 h
    cases h
    exact ⟨addr, n, haddr, hn, rfl⟩
  · rintro ⟨addr, n, haddr, hn, rfl⟩
    exact Option.bind_eq_some_iff.2 ⟨addr, haddr, Option.bind_eq_some_iff.2 ⟨n, hn, rfl⟩⟩

theorem tunnel_eq_some [DecidableEq Addr] {listen connect : Side} {text : CString}
    {s e : Endpoint Addr} :
    N.tunnel listen connect text s = some e ↔
      ∃ f addr, parseForward text = some f ∧ s = ⟨listen, N.loopback, f.port⟩ ∧
        N.resolve connect f.host = some addr ∧ e = ⟨connect, addr, f.hostPort⟩ := by
  constructor
  · intro h
    obtain ⟨f, hf, h⟩ := Option.bind_eq_some_iff.1 h
    split_ifs at h with hs
    obtain ⟨addr, haddr, rfl⟩ := Option.map_eq_some_iff.1 h
    exact ⟨f, addr, hf, hs, haddr, rfl⟩
  · rintro ⟨f, addr, hf, hs, haddr, rfl⟩
    refine Option.bind_eq_some_iff.2 ⟨f, hf, ?_⟩
    rw [if_pos hs, haddr]
    rfl

end Network

theorem Env.mhost_ne_nil (v : Env) : v.mhost ≠ [] := by
  unfold Env.mhost
  cases h : v.autosshMhost.filter (· ≠ []) with
  | none => decide
  | some s =>
    have := (Option.filter_eq_some_iff.1 h).2
    simpa using this

/-- **When the monitor loop closes.** -/
theorem loop_closes_iff {Addr : Type} [DecidableEq Addr] (N : Network Addr) {v : Env}
    {argv : List CString} {b : Built} (h : build v argv = .ok b) (hwp : b.monitor.wp ≠ 0)
    (hecho : b.monitor.echo = false) :
    N.Closes v.mhost (writeText v argv) b ↔
      (v.port.isSome = true ∨ sees ((passVector v argv).map Elem.text) = true) ∧
        N.Fits v.mhost (writeText v argv) b.monitor.wp := by
  have hforwards := forwards_of_build h hwp hecho
  obtain ⟨rest, p, -, -, -, hm, -⟩ := build_ok h
  obtain ⟨ep, hspec⟩ := monitorOf_spec hm
  obtain rfl : ep = none := by
    rw [← Option.isNone_iff_eq_none, ← Option.not_isSome, ← hspec.echo, hecho]
    rfl
  obtain ⟨h₀, hle⟩ := hspec.range
  obtain ⟨w, hw⟩ := Int.eq_ofNat_of_zero_le h₀
  have hread := N.service_decimal (w + 1) (by omega)
  have hL : snprintf (forwardText w v.mhost w) = .ok b.monitor.wmbuf := by
    rw [← hw]
    exact hspec.wmbuf hwp
  have hR : snprintf (forwardText w v.mhost (w + 1 : ℕ)) = .ok b.monitor.rmbuf := by
    rw [Nat.cast_succ, ← hw]
    exact hspec.rmbuf hwp rfl
  constructor
  · rintro ⟨l, r, s, e, hnewav, hs, he, hlisten⟩
    -- the forwards are there, and they are the two that were built
    rw [hforwards] at hnewav
    split_ifs at hnewav with hthere
    simp only [List.cons.injEq, and_true, true_and] at hnewav
    obtain ⟨rfl, rfl⟩ := hnewav
    refine ⟨hthere, ?_⟩
    obtain ⟨mid, hmid, he⟩ := Option.bind_eq_some_iff.1 he
    obtain ⟨addr, n, haddr, hn, rfl⟩ := Network.connAddr_eq_some.1 hs
    obtain ⟨f, addr₂, hf, hfs, haddr₂, rfl⟩ := Network.tunnel_eq_some.1 hmid
    obtain ⟨g, addr₃, hg, hgs, haddr₃, rfl⟩ := Network.tunnel_eq_some.1 he
    obtain ⟨addr₄, r, haddr₄, hr, hlast⟩ := Network.connAddr_eq_some.1 hlisten
    obtain ⟨hfport, hfhost, hcolon, hffits⟩ := parseForward_snprintf hL hf
    obtain ⟨hgport, hghost, -, hgfits⟩ := parseForward_snprintf hR hg
    -- the forwards lead from the loopback address at `w` to the one on the other side, and back
    obtain ⟨-, rfl, rfl⟩ := Endpoint.mk.inj hfs
    obtain ⟨-, rfl, hback⟩ := Endpoint.mk.inj hgs
    obtain ⟨-, rfl, rfl⟩ := Endpoint.mk.inj hlast
    rw [hw, ← Nat.cast_succ, hread] at hr
    have hdest := Option.some.inj hr
    exact
      { client := haddr
        server := by rw [← hfhost, haddr₂]
        colon := hcolon
        service := by rw [hn, hfport, hw]; rfl
        wmbuf := by rw [hw]; exact hffits (hback.trans hgport)
        rmbuf := by rw [hw, ← Nat.cast_succ]; exact hgfits hdest.symm }
  · rintro ⟨hthere, hfit⟩
    rw [if_pos hthere] at hforwards
    have hf := parseForward_of_fits v.mhost_ne_nil hfit.colon (by simpa [hw] using hfit.wmbuf) hL
    have hg := parseForward_of_fits v.mhost_ne_nil hfit.colon
      (by rw [Nat.cast_succ, ← hw]; exact hfit.rmbuf) hR
    refine ⟨_, _, ⟨.client, N.loopback, w⟩, ⟨.client, N.loopback, w + 1⟩, hforwards, ?_, ?_, ?_⟩
    · refine Network.connAddr_eq_some.2 ⟨_, w, hfit.client, ?_, rfl⟩
      rw [hfit.service, hw]
      rfl
    · refine Option.bind_eq_some_iff.2 ⟨⟨.server, N.loopback, w⟩, ?_, ?_⟩
      · exact Network.tunnel_eq_some.2 ⟨_, _, hf, rfl, hfit.server, rfl⟩
      · exact Network.tunnel_eq_some.2 ⟨_, _, hg, rfl, hfit.client, rfl⟩
    · refine Network.connAddr_eq_some.2 ⟨_, w + 1, hfit.client, ?_, rfl⟩
      rw [hw, ← Nat.cast_succ, hread]

/-- Hosts that are given by their address. -/
def numeric : Network CString where
  loopback := "127.0.0.1".toList
  resolve _ host := some host
  service := portNumber
  service_decimal n _ := portNumber_decimal n

theorem default_loop_closes :
    build ⟨none, none, none⟩ (["-M", "20000", "-N", "host"].map String.toList) = .ok fromFlag ∧
      numeric.Closes (Env.mhost ⟨none, none, none⟩)
        (writeText ⟨none, none, none⟩ (["-M", "20000", "-N", "host"].map String.toList))
        fromFlag := by
  have h : build ⟨none, none, none⟩ (["-M", "20000", "-N", "host"].map String.toList) =
      .ok fromFlag := by
    decide +kernel
  refine ⟨h, (loop_closes_iff numeric h (by decide) rfl).2 ⟨.inr (by decide +kernel), ?_⟩⟩
  exact
    { client := rfl
      server := rfl
      colon := by decide +kernel
      service := by decide +kernel
      wmbuf := by decide +kernel
      rmbuf := by decide +kernel }

/-- With another interface as the monitor host, autossh connects to a port of that interface, while
ssh listens on the loopback address.  And an `M` that the second pass does not see leaves the loop
without forwards. -/
theorem interface_loop_open :
    (∃ b, build ⟨none, some "10.0.0.5".toList, none⟩
          (["-M", "20000", "-N", "host"].map String.toList) = .ok b ∧
        b.monitor.wp = 20000 ∧ b.monitor.echo = false ∧
        ¬ numeric.Closes (Env.mhost ⟨none, some "10.0.0.5".toList, none⟩)
          (writeText ⟨none, some "10.0.0.5".toList, none⟩
            (["-M", "20000", "-N", "host"].map String.toList)) b) ∧
      build ⟨none, none, none⟩ (["-NM20000", "host"].map String.toList) = .ok fromCluster ∧
        ¬ numeric.Closes (Env.mhost ⟨none, none, none⟩)
          (writeText ⟨none, none, none⟩ (["-NM20000", "host"].map String.toList))
          fromCluster := by
  refine ⟨?_, by decide +kernel, ?_⟩
  · obtain ⟨b, hb, hm⟩ := exists_ok (f := Built.monitor)
      (show (build ⟨none, some "10.0.0.5".toList, none⟩
          (["-M", "20000", "-N", "host"].map String.toList)).toOption.map Built.monitor =
        some ⟨20000, false, "20000:10.0.0.5:20000".toList, "20000:10.0.0.5:20001".toList⟩ by
          decide +kernel)
    refine ⟨b, hb, by rw [hm], by rw [hm], ?_⟩
    rintro ⟨l, r, s, e, -, hs, he, -⟩
    obtain ⟨mid, hmid, -⟩ := Option.bind_eq_some_iff.1 he
    obtain ⟨addr, n, haddr, -, rfl⟩ := Network.connAddr_eq_some.1 hs
    obtain ⟨f, addr₂, -, hfs, -, -⟩ := Network.tunnel_eq_some.1 hmid
    obtain ⟨-, rfl, -⟩ := Endpoint.mk.inj hfs
    exact absurd haddr (by decide +kernel)
  · rintro ⟨l, r, s, e, hnewav, -⟩
    have hnone : fromCluster.newav.filterMap Item.forward? = [] := by decide +kernel
    cases hnone.symm.trans hnewav

end Args

end Autossh
