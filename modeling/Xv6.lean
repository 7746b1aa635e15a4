import Xv6.Code
import Xv6.Proc
import Xv6.Machine
import Xv6.Effects
import Xv6.Locks
import Xv6.Stacks
import Xv6.Disk
import Xv6.Parents
import Xv6.Wakeup
import Xv6.Lifecycle
import Xv6.Syscalls
import Xv6.Pids
import Xv6.Forkret
import Xv6.Wait
import Xv6.Kalloc
import Xv6.Vm
import Xv6.Uvm
import Xv6.Mappages
import Xv6.Swtch
import Xv6.Space
import Xv6.Grow
import Xv6.Kvm
import Xv6.Fork
import Xv6.Pages
import Xv6.Reap
import Xv6.Kinit
import Xv6.Copyout
