import PicoMq.Metadata.Proofs.OpenProofs
import PicoMq.Metadata.Proofs.TransferProofs
import PicoMq.Metadata.Proofs.LiveProofs
import PicoMq.Metadata.Proofs.LeaseProofs
import PicoMq.Metadata.Proofs.RepeatProofs
import PicoMq.Metadata.Proofs.SnapshotProofs
import PicoMq.Metadata.Proofs.QueryProofs
import PicoMq.Metadata.Proofs.PlacementProofs
import PicoMq.Server.Proofs.FailoverProofs
import PicoMq.Server.Proofs.AdmissionProofs
import PicoMq.Server.Proofs.RecoveryProofs
import PicoMq.Server.Proofs.SealingProofs
import PicoMq.Server.Proofs.ConflictProofs
import PicoMq.Server.Proofs.AppendTimesProofs
import PicoMq.Server.Proofs.WaitersProofs
import PicoMq.Server.Proofs.RetentionProofs
import PicoMq.Server.Proofs.KafkaSequencesProofs
import PicoMq.Server.Proofs.LeaderEpochsProofs
import PicoMq.Server.Proofs.PagingProofs
import PicoMq.Server.Proofs.StampingProofs
import PicoMq.Server.Proofs.NewestRecordProofs
import PicoMq.Server.Proofs.OpenEpochsProofs
import PicoMq.Sql.Proofs.ClusterProofs
import PicoMq.Sql.Proofs.LeaseProofs
import PicoMq.Auth.Proofs.PrefixProofs
import PicoMq.Groups.Proofs.ParkedSyncProofs
import PicoMq.Groups.Proofs.RefusedJoinProofs
import PicoMq.Groups.Proofs.ParkedJoinProofs
import PicoMq.Groups.Proofs.SharingProofs
import PicoMq.Groups.Proofs.WatcherProofs
import PicoMq.Topics.Proofs.ModifyProofs
import PicoMq.Groups.Proofs.OffsetCodecProofs
