import Benchhand.Contracts.FiniteTreeTheorems
import Benchhand.Daemon.ServerTheorems
import Benchhand.Rpc.DeadlineTheorems
import Benchhand.Daemon.StartTheorems
import Benchhand.Filesystem.ContainmentTheorems
import Benchhand.Filesystem.FailureTheorems
import Benchhand.Filesystem.PatchBytesTheorems
import Benchhand.Filesystem.PreconditionTheorems
import Benchhand.Filesystem.PathsTheorems
import Benchhand.Filesystem.SearchOrderTheorems
import Benchhand.Filesystem.UpdatesTheorems
import Benchhand.Filesystem.WriteQueueTheorems
import Benchhand.Filesystem.WriteSuccessTheorems
import Benchhand.Instructions.CodePointTheorems
import Benchhand.Instructions.DigestTheorems
import Benchhand.Instructions.FrontmatterTheorems
import Benchhand.Instructions.NormalPathTheorems
import Benchhand.Instructions.SkillMetadataTheorems
import Benchhand.Instructions.SkillReadTheorems
import Benchhand.Operations.EffectTheorems
import Benchhand.Operations.ReplayTheorems
import Benchhand.Posix.PathTheorems
import Benchhand.Posix.Volume
import Benchhand.Process.Pool
import Benchhand.Rpc.Client
import Benchhand.Rpc.Exchange
import Benchhand.Rpc.Results
import Benchhand.Storage.ResumeTheorems
import Benchhand.Workspace.ForeignTheorems
import Benchhand.Workspace.HandleTheorems
import Benchhand.Workspace.ManagedWorktreeTheorems
import Benchhand.Workspace.PorcelainTheorems
import Benchhand.Workspace.RecoveryTheorems
